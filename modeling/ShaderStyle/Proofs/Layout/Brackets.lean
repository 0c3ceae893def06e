import Mathlib.Data.List.Nodup
import ShaderStyle.Layout.Bracket

/-!
# Paired brackets

A pair is made of an opening bracket and a later closing one of its form, both among the content
pieces. So blanks are wanted only before a piece that follows an opening bracket or is a closing one
(`edge_of_edgeBlanks`). No bracket is in two pairs, so just inside a pair there are the blanks that this
pair wants (`edgeBlanks_of_mem`). Which pieces are paired depends on the brackets and on what is left as
it is, and on nothing else (`edgeBlanks_map`).
-/

namespace ShaderStyle.Layout

/-- Whether the piece is an opening round or square bracket. -/
def isOpener (p : Piece) : Bool :=
  p.kind = .punctuation && (p.text = ['('] || p.text = ['['])

/-- Whether the piece is a closing round or square bracket. -/
def isCloser (p : Piece) : Bool :=
  p.kind = .punctuation && (p.text = [')'] || p.text = [']'])

theorem isSome_closerOf_iff {t : Text} :
    (closerOf t).isSome = true ↔ t = ['('] ∨ t = ['['] := by
  unfold closerOf
  split
  · simp [*]
  · split
    · simp [*]
    · simp [*]

theorem closer_of_closerOf {t u : Text} (h : closerOf t = some u) : u = [')'] ∨ u = [']'] := by
  unfold closerOf at h
  split at h
  · simp only [Option.some.injEq] at h
    exact .inl h.symm
  · split at h
    · simp only [Option.some.injEq] at h
      exact .inr h.symm
    · simp at h

/-- The brackets that are open before place `i` are opening brackets at earlier places; `all` are the
content pieces from the first on. -/
def StackSound (all : List Piece) (i : Nat) (stack : List (Nat × Piece)) : Prop :=
  ∀ e ∈ stack, e.1 < i ∧ all[e.1]? = some e.2 ∧ isOpener e.2 = true

/-- The two brackets of a pair stand at their places, the opening one first. -/
structure BracketPair.IsSound (all : List Piece) (p : BracketPair) : Prop where
  order : p.openAt < p.closeAt
  openAt : all[p.openAt]? = some p.opener
  closeAt : all[p.closeAt]? = some p.closer
  opener : isOpener p.opener = true
  closer : isCloser p.closer = true

theorem isSound_of_mem_bracketPairs {before ps : List Piece} {stack : List (Nat × Piece)}
    (hstack : StackSound (before ++ ps) before.length stack) :
    ∀ p ∈ bracketPairs stack before.length ps, p.IsSound (before ++ ps) := by
  induction ps generalizing before stack with
  | nil => simp [bracketPairs]
  | cons p ps ih =>
    have hsplit : before ++ p :: ps = (before ++ [p]) ++ ps := by simp
    have hlen : before.length + 1 = (before ++ [p]).length := by simp
    have hp : (before ++ p :: ps)[before.length]? = some p := by simp
    -- whatever is put on the stack or taken from it, it stays sound for the next place
    have next {stack' : List (Nat × Piece)}
        (h : ∀ e ∈ stack', e ∈ stack ∨ (e = (before.length, p) ∧ isOpener p = true)) :
        ∀ q ∈ bracketPairs stack' (before.length + 1) ps, q.IsSound (before ++ p :: ps) := by
      rw [hlen, hsplit]
      apply ih
      intro e he
      rw [← hsplit, ← hlen]
      rcases h e he with hmem | ⟨rfl, hopen⟩
      · obtain ⟨h1, h2, h3⟩ := hstack e hmem
        exact ⟨by omega, h2, h3⟩
      · exact ⟨by simp, hp, hopen⟩
    intro q hq
    rw [bracketPairs.eq_def] at hq
    simp only at hq
    split at hq
    · rename_i hkind
      split at hq
      · rename_i hopen
        refine next ?_ q hq
        intro e he
        rcases List.mem_cons.1 he with rfl | he
        · rw [isSome_closerOf_iff] at hopen
          exact .inr ⟨rfl, by simpa [isOpener, hkind] using hopen⟩
        · exact .inl he
      · split at hq
        · exact next (fun e he => .inl he) q hq
        · rename_i j opener outer
          split at hq
          · rename_i hcloses
            rcases List.mem_cons.1 hq with rfl | hq
            · obtain ⟨h1, h2, h3⟩ := hstack (j, opener) (by simp)
              have hclose : isCloser p = true := by
                simpa [isCloser, hkind] using closer_of_closerOf hcloses
              exact ⟨h1, h2, hp, h3, hclose⟩
            · exact next (fun e he => .inl (by simp [he])) q hq
          · exact next (fun e he => .inl he) q hq
    · exact next (fun e he => .inl he) q hq

theorem mem_livePairs_iff {slots : List Slot} {p : BracketPair} :
    p ∈ livePairs slots ↔ p ∈ bracketPairs [] 0 (slots.map Slot.item) ∧ p.isLive = true := by
  rw [livePairs, List.mem_mergeSort, List.mem_filter]

theorem mem_livePairs {slots : List Slot} {p : BracketPair} (h : p ∈ livePairs slots) :
    p.IsSound (slots.map Slot.item) ∧ p.isLive = true := by
  rw [mem_livePairs_iff] at h
  have hstack : StackSound ([] ++ slots.map Slot.item) ([] : List Piece).length [] := by
    intro e he
    simp at he
  exact ⟨isSound_of_mem_bracketPairs hstack p h.1, h.2⟩

/-- Blanks are wanted only inside a pair. -/
theorem exists_mem_of_edgeBlanks {rules : RuleSet} {pairs : List BracketPair} {i : Nat} {t : Text}
    (h : edgeBlanks rules pairs i = some t) :
    ∃ p ∈ pairs, p.openAt + 1 = i ∨ p.closeAt = i := by
  unfold edgeBlanks at h
  split at h
  · rename_i hany
    rcases List.any_eq_true.1 hany with ⟨p, hp, hpi⟩
    rw [Bool.and_eq_true, decide_eq_true_eq, decide_eq_true_eq] at hpi
    exact ⟨p, hp, .inl hpi.1⟩
  · split at h
    · rename_i hany
      rcases List.any_eq_true.1 hany with ⟨p, hp, hpi⟩
      rw [Bool.or_eq_true, decide_eq_true_eq, decide_eq_true_eq] at hpi
      exact ⟨p, hp, hpi⟩
    · simp at h

/-- Blanks are wanted only behind an opening bracket and before a closing one that may both be
formatted. -/
theorem edge_of_edgeBlanks {rules : RuleSet} {slots : List Slot} {i : Nat} {t : Text}
    (h : edgeBlanks rules (livePairs slots) i = some t) :
    ∃ p, p.suppressed = false ∧
      ((∃ j, i = j + 1 ∧ (slots.map Slot.item)[j]? = some p ∧ isOpener p = true) ∨
        (0 < i ∧ (slots.map Slot.item)[i]? = some p ∧ isCloser p = true)) := by
  obtain ⟨p, hp, hpi⟩ := exists_mem_of_edgeBlanks h
  obtain ⟨hsound, hlive⟩ := mem_livePairs hp
  simp only [BracketPair.isLive, Bool.and_eq_true, Bool.not_eq_true'] at hlive
  rcases hpi with hpi | hpi
  · exact ⟨p.opener, hlive.1, .inl ⟨p.openAt, hpi.symm, hsound.openAt, hsound.opener⟩⟩
  · have := hsound.order
    exact ⟨p.closer, hlive.2, .inr ⟨by omega, hpi ▸ hsound.closeAt, hsound.closer⟩⟩

/-! ## Brackets are paired once -/

section Pairs

variable {stack : List (Nat × Piece)} {i : Nat} {ps : List Piece}

theorem openAt_of_mem {p : BracketPair} (h : p ∈ bracketPairs stack i ps) :
    p.openAt ∈ stack.map Prod.fst ∨ i ≤ p.openAt := by
  fun_induction bracketPairs stack i ps with
  | case1 => simp at h
  | case2 stack i q more _ _ ih =>
    rcases ih h with hstack | hlater
    · rcases List.mem_cons.1 hstack with heq | hstack
      · exact .inr (Nat.le_of_eq heq.symm)
      · exact .inl hstack
    · exact .inr (Nat.le_of_succ_le hlater)
  | case3 i q more _ _ ih => exact (ih h).imp id Nat.le_of_succ_le
  | case4 i q more _ _ j opener outer _ ih =>
    rcases List.mem_cons.1 h with rfl | h
    · exact .inl List.mem_cons_self
    · exact (ih h).imp (List.mem_cons_of_mem j) Nat.le_of_succ_le
  | case5 i q more _ _ j opener outer _ ih => exact (ih h).imp id Nat.le_of_succ_le
  | case6 stack i q more _ ih => exact (ih h).imp id Nat.le_of_succ_le

theorem le_closeAt_of_mem {p : BracketPair} (h : p ∈ bracketPairs stack i ps) : i ≤ p.closeAt := by
  fun_induction bracketPairs stack i ps with
  | case1 => simp at h
  | case4 i q more _ _ j opener outer _ ih =>
    rcases List.mem_cons.1 h with rfl | h
    · exact Nat.le_refl i
    · exact Nat.le_of_succ_le (ih h)
  | case2 stack i q more _ _ ih => exact Nat.le_of_succ_le (ih h)
  | case3 i q more _ _ ih => exact Nat.le_of_succ_le (ih h)
  | case5 i q more _ _ j opener outer _ ih => exact Nat.le_of_succ_le (ih h)
  | case6 stack i q more _ ih => exact Nat.le_of_succ_le (ih h)

/-- No opening bracket is in two pairs. -/
theorem nodup_openAt (hstack : (stack.map Prod.fst).Nodup) (hlt : ∀ j ∈ stack.map Prod.fst, j < i) :
    ((bracketPairs stack i ps).map BracketPair.openAt).Nodup := by
  fun_induction bracketPairs stack i ps with
  | case1 => exact List.nodup_nil
  | case2 stack i q more _ _ ih =>
    apply ih
    · rw [List.map_cons, List.nodup_cons]
      exact ⟨fun hmem => Nat.lt_irrefl i (hlt i hmem), hstack⟩
    · intro j hj
      rcases List.mem_cons.1 hj with rfl | hj
      · exact Nat.lt_succ_self _
      · exact Nat.lt_succ_of_lt (hlt j hj)
  | case3 i q more _ _ ih => exact ih hstack fun j hj => Nat.lt_succ_of_lt (hlt j hj)
  | case4 i q more _ _ j opener outer _ ih =>
    rw [List.map_cons, List.nodup_cons] at hstack ⊢
    have hlater : ∀ k ∈ outer.map Prod.fst, k < i + 1 := fun k hk =>
      Nat.lt_succ_of_lt (hlt k (List.mem_cons_of_mem j hk))
    refine ⟨?_, ih hstack.2 hlater⟩
    intro hmem
    rcases List.mem_map.1 hmem with ⟨p, hp, heq⟩
    have hj : j < i := hlt j List.mem_cons_self
    simp only at heq
    rcases openAt_of_mem hp with houter | hle
    · exact hstack.1 (heq ▸ houter)
    · omega
  | case5 i q more _ _ j opener outer _ ih =>
    exact ih hstack fun j hj => Nat.lt_succ_of_lt (hlt j hj)
  | case6 stack i q more _ ih => exact ih hstack fun j hj => Nat.lt_succ_of_lt (hlt j hj)

/-- No closing bracket is in two pairs. -/
theorem nodup_closeAt : ((bracketPairs stack i ps).map BracketPair.closeAt).Nodup := by
  fun_induction bracketPairs stack i ps with
  | case1 => exact List.nodup_nil
  | case4 i q more _ _ j opener outer _ ih =>
    rw [List.map_cons, List.nodup_cons]
    refine ⟨?_, ih⟩
    intro hmem
    rcases List.mem_map.1 hmem with ⟨p, hp, heq⟩
    have hle := le_closeAt_of_mem hp
    simp only at heq
    omega
  | _ => assumption

end Pairs

/-- Inside a pair there is what the pair wants, whatever other pairs are around. -/
theorem edgeBlanks_of_mem {rules : RuleSet} {slots : List Slot} {p : BracketPair}
    (h : p ∈ livePairs slots) {i : Nat} (hi : p.openAt + 1 = i ∨ p.closeAt = i) :
    edgeBlanks rules (livePairs slots) i =
      some (if p.closeAt = p.openAt + 1 then [] else innerBlanks rules) := by
  have hpair := (mem_livePairs_iff.1 h).1
  unfold edgeBlanks
  by_cases hempty : p.closeAt = p.openAt + 1
  · have hany : (livePairs slots).any (fun p => p.openAt + 1 = i && p.closeAt = i) = true := by
      rw [List.any_eq_true]
      refine ⟨p, h, ?_⟩
      rw [Bool.and_eq_true, decide_eq_true_eq, decide_eq_true_eq]
      omega
    rw [if_pos hany, if_pos hempty]
  · have hnone : ¬ (livePairs slots).any (fun p => p.openAt + 1 = i && p.closeAt = i) = true := by
      rw [List.any_eq_true]
      rintro ⟨q, hq, hqi⟩
      rw [Bool.and_eq_true, decide_eq_true_eq, decide_eq_true_eq] at hqi
      have hqpair := (mem_livePairs_iff.1 hq).1
      -- an empty pair at this gap would share a bracket with the pair
      have heq : p = q := by
        rcases hi with hi | hi
        · exact List.inj_on_of_nodup_map (nodup_openAt (by simp) (by simp)) hpair hqpair (by omega)
        · exact List.inj_on_of_nodup_map nodup_closeAt hpair hqpair (by omega)
      subst heq
      omega
    have hany : (livePairs slots).any (fun p => p.openAt + 1 = i || p.closeAt = i) = true := by
      rw [List.any_eq_true]
      refine ⟨p, h, ?_⟩
      rw [Bool.or_eq_true, decide_eq_true_eq, decide_eq_true_eq]
      exact hi
    rw [if_neg hnone, if_pos hany, if_neg hempty]

/-! ## What pairing depends on -/

/-- A change of pieces that leaves the brackets alone. -/
structure KeepsBrackets (f : Piece → Piece) : Prop where
  kind : ∀ p, (f p).kind = p.kind
  text : ∀ p, p.kind = .punctuation → (f p).text = p.text
  suppressed : ∀ p, (f p).suppressed = p.suppressed

/-- A pair with its pieces changed. -/
def BracketPair.map (f : Piece → Piece) (p : BracketPair) : BracketPair :=
  { p with opener := f p.opener, closer := f p.closer }

theorem bracketPairs_map {f : Piece → Piece} (hf : KeepsBrackets f) {stack : List (Nat × Piece)}
    (hstack : ∀ e ∈ stack, e.2.kind = .punctuation) (i : Nat) (ps : List Piece) :
    bracketPairs (stack.map fun e => (e.1, f e.2)) i (ps.map f) =
      (bracketPairs stack i ps).map (BracketPair.map f) := by
  induction ps generalizing stack i with
  | nil => simp [bracketPairs]
  | cons p ps ih =>
    rw [List.map_cons, bracketPairs.eq_def, bracketPairs.eq_def]
    simp only [hf.kind]
    by_cases hp : p.kind = .punctuation
    · rw [if_pos hp, if_pos hp, hf.text p hp]
      split
      · have hcons : ∀ e ∈ (i, p) :: stack, e.2.kind = .punctuation := by
          intro e he
          rcases List.mem_cons.1 he with rfl | he
          · exact hp
          · exact hstack e he
        rw [← ih hcons, List.map_cons]
      · cases stack with
        | nil => exact ih hstack (i + 1)
        | cons e outer =>
          obtain ⟨j, opener⟩ := e
          simp only [List.map_cons, hf.text opener (hstack (j, opener) (by simp))]
          split
          · rw [ih fun e he => hstack e (by simp [he]), List.map_cons]
            rfl
          · exact ih hstack (i + 1)
    · rw [if_neg hp, if_neg hp]
      exact ih hstack (i + 1)

theorem livePairs_map {f : Piece → Piece} (hf : KeepsBrackets f) {slots slots' : List Slot}
    (h : slots'.map Slot.item = (slots.map Slot.item).map f) :
    livePairs slots' = (livePairs slots).map (BracketPair.map f) := by
  have hpairs := bracketPairs_map hf (List.forall_mem_nil _) 0 (slots.map Slot.item)
  rw [List.map_nil, ← h] at hpairs
  have hlive : BracketPair.isLive ∘ BracketPair.map f = BracketPair.isLive := by
    funext p
    simp [BracketPair.isLive, BracketPair.map, hf.suppressed]
  unfold livePairs
  rw [hpairs, List.filter_map, hlive, List.map_mergeSort]
  intro p _ q _
  rfl

/-- The blanks that brackets want do not depend on what is no bracket. -/
theorem edgeBlanks_map {rules : RuleSet} {f : Piece → Piece} (hf : KeepsBrackets f)
    {slots slots' : List Slot} (h : slots'.map Slot.item = (slots.map Slot.item).map f) (i : Nat) :
    edgeBlanks rules (livePairs slots') i = edgeBlanks rules (livePairs slots) i := by
  rw [livePairs_map hf h, edgeBlanks, edgeBlanks, List.any_map, List.any_map]
  rfl

end ShaderStyle.Layout

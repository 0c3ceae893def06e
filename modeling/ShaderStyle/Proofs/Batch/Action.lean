import ShaderStyle.Batch

/-!
# How actions end

An action returns a value or is ended, and leaves its effects in both cases. `EndsWith` says of an action
that starts from some effects what holds afterwards, with one condition for either case. There is one rule
for every way in which actions are built: for a value (`EndsWith.pure`), for one action behind another
(`EndsWith.bind`), for a loop with what holds of the part that is done (`EndsWith.foldlM`), and for showing
and writing.

An action is ended by the console only with an event that the console refuses (`IsRefused`).
-/

namespace ShaderStyle.Batch

variable {α β : Type} {s : Effects} {returned returned' : α → Effects → Prop}
  {ended ended' : Raised → Effects → Prop}

/-- If the action returns, its value and its effects are as `returned` says; if it is ended, they are as
`ended` says. -/
def EndsWith (a : Action α) (s : Effects) (returned : α → Effects → Prop)
    (ended : Raised → Effects → Prop) : Prop :=
  match a s with
  | .ok x t => returned x t
  | .error raised t => ended raised t

namespace EndsWith

theorem imp {a : Action α} (h : EndsWith a s returned ended)
    (hreturned : ∀ x t, returned x t → returned' x t) (hended : ∀ raised t, ended raised t → ended' raised t) :
    EndsWith a s returned' ended' := by
  unfold EndsWith at h ⊢
  cases ha : a s with
  | ok x t =>
    rw [ha] at h
    exact hreturned x t h
  | error raised t =>
    rw [ha] at h
    exact hended raised t h

theorem pure {x : α} (h : returned x s) : EndsWith (Pure.pure x) s returned ended :=
  h

theorem throw {raised : Raised} (h : ended raised s) :
    EndsWith (MonadExcept.throw raised : Action α) s returned ended :=
  h

theorem bind {a : Action α} {f : α → Action β} {returned : β → Effects → Prop}
    (h : EndsWith a s (fun x t => EndsWith (f x) t returned ended) ended) :
    EndsWith (a >>= f) s returned ended := by
  unfold EndsWith at h ⊢
  simp only [Bind.bind, EStateM.bind]
  cases ha : a s with
  | ok x t =>
    rw [ha] at h
    exact h
  | error raised t =>
    rw [ha] at h
    exact h

/-- The effects so far are read. -/
theorem get_bind {f : Effects → Action α} (h : EndsWith (f s) s returned ended) :
    EndsWith (get >>= f) s returned ended :=
  bind h

/-- A loop keeps to what holds of the part that is done, if one round does. -/
theorem foldlM {f : α → β → Action α} {xs : List β} {inv : List β → α → Effects → Prop} {x : α}
    (hstart : inv [] x s)
    (hstep : ∀ done y rest, xs = done ++ y :: rest → ∀ x s, inv done x s →
      EndsWith (f x y) s (inv (done ++ [y])) ended) :
    EndsWith (xs.foldlM f x) s (inv xs) ended := by
  -- by induction on what is left, with the invariant on what is done
  have hrest : ∀ rest done, xs = done ++ rest → ∀ x s, inv done x s →
      EndsWith (rest.foldlM f x) s (inv xs) ended := by
    intro rest
    induction rest with
    | nil =>
      intro done hxs x s hdone
      rw [List.append_nil] at hxs
      rw [hxs]
      exact pure hdone
    | cons y rest ih =>
      intro done hxs x s hdone
      rw [List.foldlM_cons]
      refine bind ((hstep done y rest hxs x s hdone).imp ?_ fun _ _ hended => hended)
      intro x' s' hnext
      exact ih (done ++ [y]) (by simpa using hxs) x' s' hnext
  exact hrest xs [] rfl x s hstart

/-- What holds of either end of an action holds of its result. -/
theorem on {a : Action Nat} {tree : FileTree} (p : Result → Prop)
    (h : EndsWith a ⟨tree, []⟩ (fun status s => p ⟨s.tree, s.events, .ok status⟩)
      fun raised s => p ⟨s.tree, s.events, .error raised⟩) : p (a.on tree) := by
  unfold EndsWith at h
  unfold Action.on
  cases ha : a ⟨tree, []⟩ with
  | ok status s =>
    rw [ha] at h
    exact h
  | error raised s =>
    rw [ha] at h
    exact h

end EndsWith

/-! ## Showing and writing -/

variable {console : Console} {event : Event} {events events' : List Event} {file : Path} {text : Text}

/-- An action was ended because the console refused one of some events. -/
def IsRefused (console : Console) (events : List Event) (raised : Raised) (s : Effects) : Prop :=
  ∃ event ∈ events, ∃ complaint,
    raised = .unshown event complaint ∧ console.print s.events event = .error complaint

theorem IsRefused.mono {raised : Raised} (h : IsRefused console events raised s)
    (hmore : ∀ event ∈ events, event ∈ events') : IsRefused console events' raised s := by
  obtain ⟨event, hevent, hrefused⟩ := h
  exact ⟨event, hmore event hevent, hrefused⟩

theorem endsWith_print (console : Console) (event : Event) (s : Effects) :
    EndsWith (print console event) s (fun _ t => t = { s with events := s.events ++ [event] })
      fun raised t => t = s ∧ IsRefused console [event] raised s := by
  unfold EndsWith print
  cases hprint : console.print s.events event with
  | ok => rfl
  | error complaint => exact ⟨rfl, event, by simp, complaint, rfl, hprint⟩

/-- An event is shown, and then a value is returned. -/
theorem endsWith_print_pure (console : Console) (event : Event) (x : α) (s : Effects) :
    EndsWith (do print console event; return x) s (fun y t => t.tree = s.tree ∧ y = x)
      fun raised t => t.tree = s.tree ∧ IsRefused console [event] raised t := by
  refine EndsWith.bind ((endsWith_print console event s).imp ?_ ?_)
  · rintro _ _ rfl
    exact EndsWith.pure ⟨rfl, rfl⟩
  · rintro raised _ ⟨rfl, hrefused⟩
    exact ⟨rfl, hrefused⟩

/-- Events are shown one after the other. -/
theorem endsWith_forM_print (console : Console) (events : List Event) (s : Effects) :
    EndsWith (events.forM (print console)) s
      (fun _ t => t = { s with events := s.events ++ events })
      fun raised t => t.tree = s.tree ∧ IsRefused console events raised t := by
  induction events generalizing s with
  | nil => exact EndsWith.pure (by simp)
  | cons event events ih =>
    refine EndsWith.bind ((endsWith_print console event s).imp ?_ ?_)
    · rintro _ _ rfl
      refine (ih _).imp ?_ ?_
      · rintro _ _ rfl
        simp
      · rintro raised t ⟨htree, hrefused⟩
        exact ⟨htree, hrefused.mono fun _ => List.mem_cons_of_mem _⟩
    · rintro raised _ ⟨rfl, hrefused⟩
      exact ⟨rfl, hrefused.mono (by simp)⟩

theorem endsWith_write {tree : FileTree} (h : s.tree.write file.toText text = .ok tree) :
    EndsWith (write file text) s (fun _ t => t = { s with tree }) ended := by
  unfold EndsWith write
  rw [h]

end ShaderStyle.Batch

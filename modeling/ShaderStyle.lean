import ShaderStyle.Main
import ShaderStyle.Registry
import ShaderStyle.Proofs.Batch.Effect
import ShaderStyle.Proofs.Compliance.Trivia
import ShaderStyle.Proofs.Declaration.Declarators
import ShaderStyle.Proofs.Declaration.Order
import ShaderStyle.Proofs.Declaration.Parameters
import ShaderStyle.Proofs.Declaration.Termination
import ShaderStyle.Proofs.Diff.Colours
import ShaderStyle.Proofs.Layout.Absorption
import ShaderStyle.Proofs.Layout.Anchors
import ShaderStyle.Proofs.Layout.Division
import ShaderStyle.Proofs.Layout.Groups
import ShaderStyle.Proofs.Layout.Spacing
import ShaderStyle.Proofs.Layout.Verbatim
import ShaderStyle.Proofs.Layout.WordClass
import ShaderStyle.Proofs.Naming.Conversion
import ShaderStyle.Proofs.Naming.Languages
import ShaderStyle.Proofs.Outcome.SecondRun
import ShaderStyle.Proofs.Settings.Entries
import ShaderStyle.Proofs.Settings.Lookup
import ShaderStyle.Proofs.Suppression.Regions
import ShaderStyle.Proofs.Token.Concatenation
import ShaderStyle.Proofs.Token.Faults
import ShaderStyle.Proofs.Token.Neighbours
import ShaderStyle.Proofs.Token.Positions

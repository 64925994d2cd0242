import PlonkVerifier.Text.Uppercase

/-!
# Label — which commitment an evaluation opens

An evaluation at `z` is named in lowercase after the commitment it opens; the suffix `_omega` marks an
evaluation at `z ω`.  Gate selectors have longer commitment labels than evaluation labels.
-/

namespace PlonkVerifier

namespace Label

/-- `stem_1, …, stem_count`. -/
def numbered (stem : String) (count : Nat) : List String :=
  (List.range count).map fun i => stem ++ "_" ++ toString (i + 1)

/-- The wires of a gate. -/
def wires (width : Nat) : List String := numbered "w" width

/-- The label without the mark of a shifted evaluation, and whether it had one. -/
def unshift (label : String) : String × Bool :=
  let mark := "_omega".toList
  let chars := label.toList
  if mark.isSuffixOf chars then (String.ofList (chars.take (chars.length - mark.length)), true)
  else (label, false)

/-- The commitment opened by an unshifted evaluation. -/
def commitmentOf : String → String
  | "q_arith" => "Q_ARITHMETIC_SELECTOR"
  | "q_fixed_base" => "Q_FIXED_BASE_SELECTOR"
  | "q_range" => "Q_RANGE_SELECTOR"
  | "q_logic" => "Q_LOGIC_SELECTOR"
  | "q_elliptic" => "Q_ELLIPTIC"
  | label => uppercase label

/-- The commitment an evaluation opens, and whether at the shifted point. -/
def opened (label : String) : String × Bool :=
  let (base, shifted) := unshift label
  (commitmentOf base, shifted)

/-- Whether the prover sends this commitment, rather than the key holding it. -/
def isProverCommitment (label : String) : Bool :=
  label == "Z" || ["W_", "T_", "PI_"].any fun stem => stem.toList.isPrefixOf label.toList

end Label

end PlonkVerifier

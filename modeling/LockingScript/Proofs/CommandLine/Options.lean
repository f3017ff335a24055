import LockingScript.CommandLine.Options
import LockingScript.Proofs.Text.Decimal

/-!
# Options as words

Every way of showing a script can be asked for: the words that set the options are read back as
these options. The script follows the mark that ends them, so a text that starts with a dash can be
given as well.
-/

namespace LockingScript.CommandLine

def Switch.word (s : Switch) : String := "--" ++ s.name

theorem Switch.word_ne_mark (s : Switch) : s.word ≠ "--" := by cases s <;> decide

theorem Word.ofArgument_switch (s : Switch) : ofArgument s.word = .ok (.switch s) := by
  cases s <;> rfl

def Word.versionWord : String := "--" ++ versionName

theorem Word.ofArgument_versionWord : ofArgument versionWord = .ok (.version none) := rfl

/-- A number starts with a digit and never with a dash. -/
theorem Word.isOption_toString (n : UInt16) : isOption (toString n) = false := by
  unfold isOption
  split
  · rename_i written
    exact absurd (Text.head_toString (n := n.toNat) written) (by decide)
  · rfl

namespace Draft

variable {d : Draft} {rest : List String}

theorem read_switch {s : Switch} (fresh : s ∉ d.switches) :
    d.read (s.word :: rest) = { d with switches := s :: d.switches }.read rest := by
  have added : d.addSwitch s = .ok { d with switches := s :: d.switches } := if_neg fresh
  have step : d.read (s.word :: rest) = (d.addSwitch s).bind (·.read rest) := by
    have notMark := s.word_ne_mark
    have known := Word.ofArgument_switch s
    -- A word that may need a value is told apart by whether more words follow.
    cases rest <;> simp only [read, known] <;> rfl
  rw [step, added]
  rfl

theorem read_version {version : UInt16} (fresh : d.version = none) :
    d.read (Word.versionWord :: toString version :: rest) =
      { d with version := some version }.read rest := by
  have added : d.addVersion (toString version) = .ok { d with version := some version } := by
    rw [addVersion, fresh, Text.uint16?_toString]
    rfl
  rw [read, Word.ofArgument_versionWord]
  · simp only [Word.isOption_toString, added]
    rfl
  · decide

theorem read_mark (fresh : d.script = none) (text : String) :
    d.read ["--", text] = .ok (.inspect d.options text) := by
  rw [read, List.foldlM_cons, addScript, fresh]
  rfl

/-- Switches that are all different are collected, the last of them in front. -/
theorem read_switches {switches : List Switch} (distinct : switches.Nodup)
    (fresh : ∀ s ∈ switches, s ∉ d.switches) :
    d.read (switches.map Switch.word ++ rest) =
      { d with switches := switches.reverse ++ d.switches }.read rest := by
  induction switches generalizing d with
  | nil => rfl
  | cons s later ih =>
      obtain ⟨new, distinct⟩ := List.nodup_cons.mp distinct
      obtain ⟨freshFirst, freshLater⟩ := List.forall_mem_cons.mp fresh
      rw [List.map_cons, List.cons_append, read_switch freshFirst, ih distinct]
      · simp
      · intro other listed again
        rcases List.mem_cons.mp again with rfl | before
        · exact new listed
        · exact freshLater other listed before

end Draft

namespace Options

/-- Whether a switch has to be given for the options. -/
def Sets (o : Options) : Switch → Bool
  | .compress => o.style = .compressed
  | .treasury => o.policy.treasury
  | .oneLine => o.oneLine

/-- The words that ask for a text to be shown in this way. The version is always given. -/
def arguments (o : Options) (text : String) : List String :=
  (Switch.all.filter o.Sets).map Switch.word ++
    [Word.versionWord, toString o.version, "--", text]

/-- The options are found again in what their words leave behind. -/
theorem options_of_switches (o : Options) :
    Draft.options ⟨none, some o.version, (Switch.all.filter o.Sets).reverse⟩ = o := by
  obtain ⟨style, version, ⟨treasury⟩, oneLine⟩ := o
  cases style <;> cases treasury <;> cases oneLine <;> rfl

end Options

/-- Every text can be given for a script, with every choice of the options. -/
theorem Command.ofArguments_arguments (o : Options) (text : String) :
    ofArguments (o.arguments text) = .ok (.inspect o text) := by
  have distinct : (Switch.all.filter o.Sets).Nodup := List.Pairwise.filter _ (by decide)
  rw [ofArguments, Options.arguments, Draft.read_switches distinct (by simp [Draft.empty]),
    Draft.read_version rfl, Draft.read_mark rfl]
  simp only [Draft.empty, List.append_nil, Options.options_of_switches]

end LockingScript.CommandLine

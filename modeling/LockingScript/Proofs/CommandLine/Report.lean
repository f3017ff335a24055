import LockingScript.Proofs.CommandLine.Lines
import LockingScript.Proofs.Output.Consistency
import LockingScript.Proofs.Output.Malformed

/-!
# What a run reports

A run fails for one of two reasons: its argument is not hexadecimal, or the script breaks off in a
push. Once the script has been read, its payees can be asked for as well, so nothing can go wrong
later, and the class of the script decides which lines are printed.
-/

namespace LockingScript

theorem checkParses_eq_ok_iff {version : UInt16} {script : Bytes} :
    checkParses version script = .ok () ↔ ∃ tokens, tokenize version script = .ok tokens := by
  rw [checkParses_eq]
  cases tokenize version script <;> simp [Except.map]

namespace CommandLine

/-- Whether the line names the class and, exactly for a script with a tag, in parentheses the class
behind the tag. -/
def NamesClass (c : Classification) (line : String) : Prop :=
  (c.outputClass.IsTagged →
    ∃ inner ∈ c.inner, line = "class: " ++ c.outputClass.name ++ " (" ++ inner.name ++ ")") ∧
  (¬ c.outputClass.IsTagged → line = "class: " ++ c.outputClass.name)

/-- The lines about a script of the class: the script in words, its class, the number of signatures
unless nobody is paid, and a line for each payee. -/
def report (words kind : String) (c : OutputClass) (found : Payees) : List String :=
  [words, kind] ++
    (if c ∈ OutputClass.unpaid then []
      else ["required signatures: " ++ toString found.required]) ++
    found.addresses.map fun address => "address payload: " ++ Hex.encode address.payload

theorem namesClass_classLine_of_form (form : Form) :
    NamesClass ⟨form.outputClass, form.innerClass?⟩
      (classLine ⟨form.outputClass, form.innerClass?⟩) := by
  have tagged := form.isSome_innerClass?_iff
  cases behind : form.innerClass? with
  | some inner =>
      rw [behind] at tagged
      exact ⟨fun _ => ⟨inner, rfl, rfl⟩, fun other => absurd (tagged.mp rfl) other⟩
  | none =>
      rw [behind] at tagged
      exact ⟨fun isTagged => absurd (tagged.mpr isTagged) (by decide), fun _ => rfl⟩

theorem report_of_readFrom {policy : Policy} {tokens : List Token} {form : Form}
    (read : form.ReadFrom policy tokens) (words kind : String) :
    report words kind form.outputClass form.payees =
      words :: kind :: payeeLines form.payees := by
  have unpaid := Form.required_eq_zero_iff read
  rw [report, payeeLines]
  by_cases nobody : form.outputClass ∈ OutputClass.unpaid
  · have none : ¬ 0 < form.payees.required := Nat.not_lt.mpr (Nat.le_of_eq (unpaid.mpr nobody))
    rw [if_pos nobody, if_neg none]
    rfl
  · have some : 0 < form.payees.required := Nat.pos_of_ne_zero fun zero => nobody (unpaid.mp zero)
    rw [if_neg nobody, if_pos some]
    rfl

section Script

variable {version : UInt16} {script : Bytes} {tokens : List Token}

theorem namesClass_classLine (tokenized : tokenize version script = .ok tokens)
    (policy : Policy) :
    NamesClass (classify version script policy) (classLine (classify version script policy)) := by
  rw [classify_of_tokenize tokenized]
  exact namesClass_classLine_of_form _

theorem report_of_tokenize (tokenized : tokenize version script = .ok tokens) (policy : Policy)
    (words kind : String) :
    report words kind (classify version script policy).outputClass
        (Form.ofTokens policy tokens).payees =
      words :: kind :: payeeLines (Form.ofTokens policy tokens).payees := by
  rw [classify_of_tokenize tokenized]
  exact report_of_readFrom (Form.readFrom_ofTokens policy tokens) words kind

end Script

section Inspect

variable {o : Options} {text : String} {script : Bytes}

theorem inspect_of_badHex {cause : HexError}
    (refused : Hex.decode (Text.trim text.toList) = .error cause) :
    inspect o text = .failure "" "script is not valid hex" cause.message := by
  rw [inspect, refused]

theorem inspect_of_malformed {fault : MalformedPush}
    (decoded : Hex.decode (Text.trim text.toList) = .ok script)
    (malformed : checkParses o.version script = .error fault) :
    inspect o text = .failure (unlines [rendering o script]) "script does not parse"
      (Error.malformedPush fault).message := by
  simp only [inspect, decoded, malformed]

theorem lines_inspect_of_malformed {fault : MalformedPush}
    (decoded : Hex.decode (Text.trim text.toList) = .ok script)
    (malformed : checkParses o.version script = .error fault) :
    lines (inspect o text).output = [rendering o script] := by
  rw [inspect_of_malformed decoded malformed, Outcome.failure, lines_unlines]
  exact List.forall_mem_singleton.mpr (newline_not_mem_rendering o script)

/-- A script that can be read is reported to the end. -/
theorem inspect_of_parses (decoded : Hex.decode (Text.trim text.toList) = .ok script)
    (parses : checkParses o.version script = .ok ()) :
    ∃ found kind, payees o.version script o.policy = .ok found ∧
      NamesClass (classify o.version script o.policy) kind ∧
      inspect o text = .success (unlines (report (rendering o script) kind
        (classify o.version script o.policy).outputClass found)) ∧
      lines (inspect o text).output = report (rendering o script) kind
        (classify o.version script o.policy).outputClass found := by
  obtain ⟨tokens, tokenized⟩ := checkParses_eq_ok_iff.mp parses
  have paid := payees_of_tokenize tokenized o.policy
  have outcome : inspect o text = .success (unlines (rendering o script ::
      classLine (classify o.version script o.policy) ::
      payeeLines (Form.ofTokens o.policy tokens).payees)) := by
    simp only [inspect, decoded, parses, paid]
  refine ⟨_, _, paid, namesClass_classLine tokenized o.policy, ?_, ?_⟩
  · rw [outcome, report_of_tokenize tokenized]
  · rw [outcome, Outcome.success, lines_unlines (newline_not_mem_printed o script _ _),
      report_of_tokenize tokenized]

theorem status_inspect_eq_zero_iff :
    (inspect o text).status = 0 ↔
      ∃ script, Hex.decode (Text.trim text.toList) = .ok script ∧
        checkParses o.version script = .ok () := by
  cases decoded : Hex.decode (Text.trim text.toList) with
  | error cause => simp [inspect_of_badHex decoded, Outcome.failure]
  | ok script =>
      cases parses : checkParses o.version script with
      | error fault => simp [inspect_of_malformed decoded parses, Outcome.failure, parses]
      | ok done =>
          obtain ⟨_, _, _, _, outcome, _⟩ := inspect_of_parses decoded parses
          rw [outcome]
          exact iff_of_true rfl ⟨script, rfl, parses⟩

end Inspect

theorem run_of_accepted {arguments : List String} {o : Options} {text : String}
    (accepted : Command.ofArguments arguments = .ok (.inspect o text)) :
    run arguments = inspect o text := by
  rw [run, accepted]

end CommandLine

end LockingScript

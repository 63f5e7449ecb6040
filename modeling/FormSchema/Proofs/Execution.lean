import FormSchema.Command.Directory
import FormSchema.Proofs.Directory

/-!
Commands carried out in a world. All that can fail comes before the first file is written and before anything
is printed, but for a package that stops in the middle of a text. So a command that fails for another reason has used
up standard input at most.
-/
namespace FormSchema

namespace World
variable {α β : Type} {w : World} {yaml : YamlPackage}

def surroundings (w : World) (yaml : YamlPackage) : Surroundings := { w.files.surroundings w.input with yaml }

def withInput (input : String) (w : World) : World := { w with input }

def outcome (action : ExceptT CommandError (StateM World) α) (w : World) : Except CommandError α × World :=
  action w

private theorem outcome_bind_ok {action : ExceptT CommandError (StateM World) α} {value : α} {after : World}
    (h : outcome action w = (.ok value, after)) (next : α → ExceptT CommandError (StateM World) β) :
    outcome (action >>= next) w = outcome (next value) after := by
  show (ExceptT.bindCont next (outcome action w).1) (outcome action w).2 = _
  rw [h]
  rfl

private theorem outcome_bind_error {action : ExceptT CommandError (StateM World) α} {error : CommandError}
    {after : World} (h : outcome action w = (.error error, after)) (next : α → ExceptT CommandError (StateM World) β) :
    outcome (action >>= next) w = (.error error, after) := by
  show (ExceptT.bindCont next (outcome action w).1) (outcome action w).2 = _
  rw [h]
  rfl

private theorem outcome_print (text : String) (w : World) :
    outcome (liftM (Host.print text : StateM World Unit)) w = (.ok (), w.print text) := rfl

/-- An action that reads: it comes to the value or the error that the surroundings give, uses up standard
input at most, and leaves what they leave. -/
structure Reads (yaml : YamlPackage) (w : World) (action : ExceptT CommandError (StateM World) α)
    (result : Except CommandError (α × Surroundings)) : Prop where
  outcome : ∃ rest, outcome action w = (result.map Prod.fst, w.withInput rest) ∧
    ∀ value found, result = .ok (value, found) → found = (w.withInput rest).surroundings yaml
  leavesNothing : ∀ error, result = .error error → error.left? = none

def keep (file : Option FileText) (w : World) : World :=
  match file with
  | some file => (w.create file.path).append file.path file.text
  | none => w

def receive (output : Output) (w : World) : World :=
  (w.keep (output.written.map Document.toFileText)).print output.printed

/-- What a command comes to, and the world that it leaves. -/
def settled (result : Except CommandError Output) (w : World) : Except CommandError Unit × World :=
  match result with
  | .ok output => (.ok (), w.receive output)
  | .error error => (.error error, w.keep error.left?)

/-- A whole command, or the rest of one: it gives the output that the surroundings lead to, or fails and
leaves everything but the standard input and what it had written by then. -/
def Ends (w : World) (action : ExceptT CommandError (StateM World) Unit) (result : Except CommandError Output) :
    Prop := ∃ rest, outcome action w = settled result (w.withInput rest)

/-- What fails without having written anything. -/
private theorem ends_of_error {action : ExceptT CommandError (StateM World) Unit} {error : CommandError}
    (input : String) (h : outcome action w = (.error error, w.withInput input)) (hleft : error.left? = none) :
    w.Ends action (.error error) :=
  ⟨input, by rw [h, settled, hleft, keep]⟩

theorem Reads.bind {action : ExceptT CommandError (StateM World) α}
    {result : Except CommandError (α × Surroundings)} (h : w.Reads yaml action result)
    {next : α → ExceptT CommandError (StateM World) Unit} {rest : α × Surroundings → Except CommandError Output}
    (hnext : ∀ value input,
      (w.withInput input).Ends (next value) (rest (value, (w.withInput input).surroundings yaml))) :
    w.Ends (action >>= next) (result >>= rest) := by
  obtain ⟨⟨input, houtcome, hfound⟩, hleft⟩ := h
  cases result with
  | error error => exact ends_of_error input (outcome_bind_error houtcome next) (hleft error rfl)
  | ok read =>
    obtain ⟨value, found⟩ := read
    obtain rfl := hfound value found rfl
    obtain ⟨later, hlater⟩ := hnext value input
    exact ⟨later, (outcome_bind_ok houtcome next).trans hlater⟩

private theorem print_print (a b : String) (w : World) : (w.print a).print b = w.print (a ++ b) := by
  rw [print, print, print, String.append_assoc]

/-- Lines that are printed one after the other. -/
private theorem outcome_lines (lines : List String) (before : String) (w : World) :
    outcome (lines.forM fun line => (liftM (Host.print (line ++ "\n") : StateM World Unit) :
        ExceptT CommandError (StateM World) Unit)) (w.print before) =
      (.ok (), w.print ((lines.map (· ++ "\n")).foldl (· ++ ·) before)) := by
  induction lines generalizing before with
  | nil => rfl
  | cons line lines ih =>
    refine (outcome_bind_ok (outcome_print (line ++ "\n") _) _).trans ?_
    rw [print_print]
    exact ih _

/-- What is printed after the output of a command belongs to it. -/
theorem Ends.lines {action : ExceptT CommandError (StateM World) Unit} {result : Except CommandError Output}
    (h : w.Ends action result) (lines : List String) :
    w.Ends (do action; lines.forM fun line => (liftM (Host.print (line ++ "\n") : StateM World Unit) :
        ExceptT CommandError (StateM World) Unit))
      (do let written ← result
          return { written with printed := (lines.map (· ++ "\n")).foldl (· ++ ·) written.printed }) := by
  obtain ⟨rest, h⟩ := h
  cases result with
  | error error => exact ⟨rest, outcome_bind_error h _⟩
  | ok output => exact ⟨rest, (outcome_bind_ok h _).trans (outcome_lines lines output.printed _)⟩

theorem Reads.map {action : ExceptT CommandError (StateM World) α} {result : Except CommandError (α × Surroundings)}
    (h : w.Reads yaml action result) (f : α → β) :
    w.Reads yaml (do return f (← action)) (result.map fun read => (f read.1, read.2)) := by
  obtain ⟨⟨input, h, hfound⟩, hleft⟩ := h
  cases result with
  | error error =>
    refine ⟨⟨input, outcome_bind_error h _, fun _ _ heq => nomatch heq⟩, fun other heq => ?_⟩
    cases heq
    exact hleft error rfl
  | ok read =>
    refine ⟨⟨input, outcome_bind_ok h _, fun value found heq => ?_⟩, fun _ heq => nomatch heq⟩
    cases heq
    exact hfound _ _ rfl

end World

/-! What a command may write. -/

private theorem exists_of_map_eq_ok {ε α β : Type} {result : Except ε α} {f : α → β} {value : β}
    (h : result.map f = .ok value) : ∃ first, result = .ok first ∧ f first = value := by
  cases result with
  | error error => cases h
  | ok first => exact ⟨first, rfl, Except.ok.inj h⟩

namespace Surroundings
variable {α : Type} {found rest : Surroundings} {reader : DocumentReader α} {path : String} {value : α}

def opened (found : Surroundings) (path : String) : Source :=
  if FilePath.isDash path then .standardInput else found.source path

/-- A value is read from the standard input, which is used up, or from the text of a file. -/
theorem read_eq_ok_iff : found.read reader path = .ok (value, rest) ↔
    (found.opened path = .standardInput ∧ reader.read? found.yaml (.ofPath path) found.input = some value ∧
      rest = { found with input := "" }) ∨
    ∃ text, found.opened path = .text text ∧ reader.read? found.yaml (.ofPath path) text = some value ∧
      rest = found := by
  rw [read, opened]
  generalize (if FilePath.isDash path = true then Source.standardInput else found.source path) = source
  cases source with
  | nothing | unreadable => simp
  | standardInput =>
    dsimp only
    cases reader.read? found.yaml (.ofPath path) found.input <;> simp [eq_comm]
  | text text =>
    dsimp only
    cases hvalue : reader.read? found.yaml (.ofPath path) text <;> simp [hvalue, eq_comm]

/-- Documents are written as before when others have been read. -/
structure WritesAs (found rest : Surroundings) : Prop where
  canCreate : rest.canCreate = found.canCreate
  yaml : rest.yaml = found.yaml

theorem WritesAs.trans {last : Surroundings} (h : found.WritesAs rest) (hrest : rest.WritesAs last) :
    found.WritesAs last :=
  ⟨hrest.canCreate.trans h.canCreate, hrest.yaml.trans h.yaml⟩

private theorem writesAs_of_read (h : found.read reader path = .ok (value, rest)) : found.WritesAs rest := by
  obtain ⟨-, -, rfl⟩ | ⟨-, -, -, rfl⟩ := read_eq_ok_iff.mp h
  · exact ⟨rfl, rfl⟩
  · exact ⟨rfl, rfl⟩

private theorem writesAs_of_readPrevious {path : Option String} {previous : Schema}
    (h : found.readPrevious path = .ok (previous, rest)) : found.WritesAs rest := by
  cases path with
  | none => cases h; exact ⟨rfl, rfl⟩
  | some path => exact writesAs_of_read h

/-- Where a document can be created, it is written, unless the package stops in the middle of it. -/
theorem write_some (hdash : FilePath.isDash path = false) (hcan : found.canCreate path = true) (value : Json) :
    found.write (some path) value =
      if ((DocumentFormat.ofPath path).write found.yaml value).isWhole then
        .ok { written := some (.of found.yaml path value) }
      else .error (.writing (.serializing (Document.of found.yaml path value).toFileText)) := by
  rw [write, hdash, hcan]
  rfl

private theorem write_eq_ok {path : Option String} {value : Json} {output : Output}
    (h : found.write path value = .ok output) {document : Document} (hwritten : output.written = some document) :
    document = .of found.yaml document.path value ∧ path = some document.path ∧
      FilePath.isDash document.path = false ∧ found.canCreate document.path = true ∧
      (document.format.write found.yaml value).isWhole = true := by
  cases path with
  | none =>
    cases h
    cases hwritten
  | some path =>
    cases hdash : FilePath.isDash path with
    | true =>
      rw [write, hdash, if_pos rfl] at h
      cases h
      cases hwritten
    | false =>
      cases hcan : found.canCreate path with
      | false =>
        rw [write, hdash, hcan] at h
        cases h
      | true =>
        rw [write_some hdash hcan] at h
        split at h
        · cases h
          cases hwritten
          exact ⟨rfl, rfl, hdash, hcan, ‹_›⟩
        · cases h

end Surroundings

namespace Command

/-- What an inference reads, what is left to find after that, and what it computes. -/
structure Infers (found : Surroundings) (input : String) (schema : Option String) (widget : String)
    (fieldLimit : Nat) (sample : Json) (previous : Schema) (left : Surroundings) (computed : Computed) : Prop where
  reads : ∃ rest, found.readSample input = .ok (sample, rest) ∧ rest.readPrevious schema = .ok (previous, left)
  computes : Schema.compute widget fieldLimit (some sample) previous [] = .ok computed

/-- The documents of an inference can be read, but the sample has more fields than it may have. -/
def ExceedsLimit (found : Surroundings) : Command → Prop
  | .infer input schema _ widget fieldLimit _ => ∃ sample previous left computed,
    Infers found input schema widget fieldLimit sample previous left computed ∧ computed.status = .limitExceeded
  | _ => False

section Inference
variable {found left : Surroundings} {input widget : String} {schema : Option String} {fieldLimit : Nat}
  {sample : Json} {previous : Schema} {computed : Computed}

theorem Infers.run_eq (h : Infers found input schema widget fieldLimit sample previous left computed)
    (output : Option String) (printPaths : Bool) :
    (Command.infer input schema output widget fieldLimit printPaths).run found =
      if computed.status = .limitExceeded then .ok {}
      else (left.write output computed.schema.toJson).map fun written =>
        let lines := if printPaths then computed.paths.map (· ++ "\n") else []
        { written with printed := lines.foldl (· ++ ·) written.printed } := by
  obtain ⟨⟨rest, hsample, hprevious⟩, hcomputed⟩ := h
  rw [run, hsample]
  show (rest.readPrevious schema >>= _) = _
  rw [hprevious]
  show ((Schema.compute widget fieldLimit (some sample) previous []).mapError _ >>= _) = _
  rw [hcomputed]
  show (if computed.status = .limitExceeded then _ else _) = _
  split
  · rfl
  · cases left.write output computed.schema.toJson <;> rfl

theorem Infers.writesAs (h : Infers found input schema widget fieldLimit sample previous left computed) :
    found.WritesAs left := by
  obtain ⟨rest, hsample, hprevious⟩ := h.reads
  exact (Surroundings.writesAs_of_read hsample).trans (Surroundings.writesAs_of_readPrevious hprevious)

/-- The document that an inference writes holds the schema that it computes. -/
theorem Infers.written (h : Infers found input schema widget fieldLimit sample previous left computed)
    {output : Option String} {printPaths : Bool} {result : Output}
    (hrun : (Command.infer input schema output widget fieldLimit printPaths).run found = .ok result)
    {document : Document} (hwritten : result.written = some document) :
    computed.status ≠ .limitExceeded ∧ document = .of found.yaml document.path computed.schema.toJson ∧
      output = some document.path ∧ FilePath.isDash document.path = false ∧
      found.canCreate document.path = true ∧
      (document.format.write found.yaml computed.schema.toJson).isWhole = true := by
  rw [h.run_eq] at hrun
  split at hrun
  · cases hrun
    cases hwritten
  · rename_i hstatus
    obtain ⟨written, hdocument, rfl⟩ := exists_of_map_eq_ok hrun
    obtain ⟨hvalue, hpath, hdash, hcan, hwhole⟩ := Surroundings.write_eq_ok hdocument hwritten
    rw [h.writesAs.yaml] at hvalue hwhole
    rw [h.writesAs.canCreate] at hcan
    exact ⟨hstatus, hvalue, hpath, hdash, hcan, hwhole⟩

end Inference

theorem ExceedsLimit.run_eq {command : Command} {found : Surroundings} (h : command.ExceedsLimit found) :
    command.run found = .ok {} := by
  cases command with
  | infer input schema path widget fieldLimit printPaths =>
    obtain ⟨sample, previous, left, computed, hinfers, hlimit⟩ := h
    rw [hinfers.run_eq, if_pos hlimit]
  | _ => exact h.elim

end Command

namespace Program

variable {yaml : YamlPackage}

section Exit
variable {arguments : List String} {command : Command} {w : World}

end Exit

def kept : World := { files := [("form.yaml", "[]")], input := "\x7b\x7d" }

end Program
end FormSchema

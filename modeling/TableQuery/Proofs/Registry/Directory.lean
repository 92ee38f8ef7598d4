import TableQuery.Proofs.Query.Registration
import TableQuery.Proofs.Registry.Loading

/-!
# Loading a directory

A file *gives* a dataset if it has the extension of a dataset file and can be loaded
(`DirectoryFile.Gives`).  Among the files of one stem that give a dataset the one of the greatest path prevails
(`Registry.Prevails`), in whatever order the directory lists its files.  All other files might as well not
be there (`Registry.ofDirectory_in_any_order`).

Adding a file to a registry changes what is found under the name of its dataset, if the file can be loaded, and
nothing else (`dataset?_addFile`).  So after some files were added, what is found under a name is what the last
one of them gives that has this name (`dataset?_foldl_addFile`).  A registry is known by what is found in it,
since its datasets stand in the order of their names (`eq_of_dataset?`).

The files of a directory have the same parts in front of their names, so the order of their paths is the order
of the paths as bytes.  Nothing is assumed about the readers of JSON and YAML.
-/

namespace TableQuery

/-- A dataset is named for the stem of its file. -/
theorem Dataset.stem?_of_load {readers : Readers} {path : Path} {contents : Except String ByteArray}
    {dataset : Dataset} (h : load readers path contents = .ok dataset) :
    FileName.stem? path = some dataset.name := by
  obtain ⟨name, text, file, hstem, -, -, hfile⟩ := exists_file_of_load h
  obtain ⟨loaded, -, rfl⟩ := ofFile_eq_ok_iff.mp hfile
  exact hstem

namespace DirectoryFile

/-- A file gives a dataset: its extension is that of a dataset file, and it is loaded as the dataset. -/
structure Gives (file : DirectoryFile) (readers : Readers) (dataset : Dataset) : Prop where
  extension : ∃ extension ∈ ["json", "yaml", "yml"], FileName.extension? file.1 = some extension
  loaded : Dataset.load readers file.1 file.2 = .ok dataset

/-- A file gives some dataset. -/
def Accepted (file : DirectoryFile) (readers : Readers) : Prop := ∃ dataset, file.Gives readers dataset

end DirectoryFile

namespace Registry

/-- Of the files that give a dataset and have a stem, this one has the greatest path. -/
structure Prevails (readers : Readers) (files : List DirectoryFile) (name : String)
    (file : DirectoryFile) : Prop where
  mem : file ∈ files
  stem : FileName.stem? file.1 = some name
  accepted : file.Accepted readers
  greatest : ∀ other ∈ files, FileName.stem? other.1 = some name → other.Accepted readers →
    other.1 ≤ file.1

/-! ## What is found in a registry -/

theorem dataset?_eq_ok_iff {registry : Registry} {name : String} {dataset : Dataset} :
    registry.dataset? name = .ok dataset ↔ dataset ∈ registry.datasets ∧ dataset.name = name := by
  have hnames : (registry.datasets.map Dataset.name).Nodup := by
    rw [List.Nodup, List.pairwise_map]
    exact registry.ordered.imp String.ne_of_lt
  rw [dataset?]
  constructor
  · intro h
    split at h
    next found hfind =>
      cases h
      exact ⟨List.mem_of_find?_eq_some hfind, by simpa using List.find?_some hfind⟩
    next => cases h
  · rintro ⟨hmem, rfl⟩
    cases hfind : registry.datasets.find? fun other => other.name == dataset.name with
    | none => simpa using List.find?_eq_none.mp hfind dataset hmem
    | some found =>
      have hname : found.name = dataset.name := by simpa using List.find?_some hfind
      rw [List.inj_on_of_nodup_map hnames (List.mem_of_find?_eq_some hfind) hmem hname]

/-- Registries in which the same is found are equal. -/
theorem eq_of_dataset? {a b : Registry}
    (h : ∀ name dataset, a.dataset? name = .ok dataset ↔ b.dataset? name = .ok dataset) : a = b := by
  have hnodup (registry : Registry) : registry.datasets.Nodup :=
    registry.ordered.imp fun hlt heq => String.ne_of_lt hlt (congrArg Dataset.name heq)
  have hmem : ∀ dataset, dataset ∈ a.datasets ↔ dataset ∈ b.datasets := by
    intro dataset
    have hsame := h dataset.name dataset
    simpa only [dataset?_eq_ok_iff, and_true] using hsame
  have hperm := (List.perm_ext_iff_of_nodup (hnodup a) (hnodup b)).mpr hmem
  have hdatasets : a.datasets = b.datasets :=
    hperm.eq_of_pairwise (fun _ _ _ _ hlt hgt => absurd hgt (String.lt_asymm hlt)) a.ordered b.ordered
  obtain ⟨datasets, ordered⟩ := a
  obtain ⟨others, _⟩ := b
  cases hdatasets
  rfl

/-! ## Adding files -/

variable {readers : Readers}

/-- What a file is loaded as, if that has a given name. -/
def loadedAs? (readers : Readers) (name : String) (file : DirectoryFile) : Option Dataset :=
  (Dataset.load readers file.1 file.2).toOption.filter fun dataset => dataset.name == name

theorem loadedAs?_eq_some_iff {name : String} {file : DirectoryFile} {dataset : Dataset} :
    loadedAs? readers name file = some dataset ↔
      Dataset.load readers file.1 file.2 = .ok dataset ∧ FileName.stem? file.1 = some name := by
  rw [loadedAs?, Option.filter_eq_some_iff, beq_iff_eq]
  cases hload : Dataset.load readers file.1 file.2 with
  | error fault => simp [Except.toOption]
  | ok loaded =>
    have hstem := Dataset.stem?_of_load hload
    simp only [Except.toOption, Option.some.injEq, Except.ok.injEq, hstem]
    exact and_congr_right fun heq => by rw [heq]

/-- One file changes what is found under its name. -/
theorem dataset?_addFile (registry : Registry) (file : DirectoryFile) (name : String) :
    (registry.addFile readers file).dataset? name =
      (loadedAs? readers name file).elim (registry.dataset? name) .ok := by
  rw [addFile, loadedAs?]
  cases Dataset.load readers file.1 file.2 with
  | error fault => rfl
  | ok dataset =>
    by_cases hname : dataset.name = name
    · subst hname
      simp [Except.toOption, Option.filter, dataset?_register_self]
    · simp [Except.toOption, Option.filter, hname, dataset?_register_of_ne hname]

/-- Of some files the last one that has a name is found under it. -/
theorem dataset?_foldl_addFile (registry : Registry) (files : List DirectoryFile) (name : String) :
    (files.foldl (addFile readers) registry).dataset? name =
      (files.reverse.findSome? (loadedAs? readers name)).elim (registry.dataset? name) .ok := by
  induction files generalizing registry with
  | nil => rfl
  | cons file rest ih =>
    rw [List.foldl_cons, ih, dataset?_addFile, List.reverse_cons, List.findSome?_append]
    cases rest.reverse.findSome? (loadedAs? readers name) with
    | none => simp
    | some dataset => rfl

/-! ## The files of a directory -/

variable {files others : List DirectoryFile} {name : String} {file : DirectoryFile}

theorem mem_datasetFiles : file ∈ datasetFiles files ↔ file ∈ files ∧
    ∃ extension ∈ ["json", "yaml", "yml"], FileName.extension? file.1 = some extension := by
  rw [datasetFiles, List.mem_mergeSort, List.mem_filter, Option.any_eq_true]
  simp only [List.contains_iff_mem, extensions, and_comm]

theorem pairwise_datasetFiles (files : List DirectoryFile) :
    (datasetFiles files).Pairwise fun a b => a.1 ≤ b.1 := by
  have hle (a b : DirectoryFile) : (!decide (b.1 < a.1)) = true ↔ a.1 ≤ b.1 := by
    rw [Bool.not_eq_true', decide_eq_false_iff_not, List.not_lt]
  have hsorted : (datasetFiles files).Pairwise fun a b => !decide (b.1 < a.1) := by
    refine List.pairwise_mergeSort (fun a b c hab hbc => ?trans) (fun a b => ?total) _
    case trans => exact (hle a c).mpr (List.le_trans ((hle a b).mp hab) ((hle b c).mp hbc))
    case total =>
      rw [Bool.or_eq_true, hle, hle]
      exact List.le_total a.1 b.1
  exact hsorted.imp fun h => (hle _ _).mp h

/-- The file that is added last. -/
theorem prevails_of_findSome? {dataset : Dataset}
    (h : (datasetFiles files).reverse.findSome? (loadedAs? readers name) = some dataset) :
    ∃ file, Prevails readers files name file ∧ file.Gives readers dataset := by
  obtain ⟨later, file, earlier, hsplit, hfile, hlater⟩ := List.findSome?_eq_some_iff.mp h
  have hmem (other : DirectoryFile) :
      other ∈ datasetFiles files ↔ other ∈ later ++ file :: earlier := by
    rw [← hsplit, List.mem_reverse]
  obtain ⟨hload, hstem⟩ := loadedAs?_eq_some_iff.mp hfile
  obtain ⟨hfiles, hextension⟩ := mem_datasetFiles.mp ((hmem file).mpr (by simp))
  have hgives : file.Gives readers dataset := ⟨hextension, hload⟩
  have hsorted := List.pairwise_reverse.mpr (pairwise_datasetFiles files)
  rw [hsplit] at hsorted
  have hearlier := (List.pairwise_cons.mp (List.pairwise_append.mp hsorted).2.1).1
  refine ⟨file, ⟨hfiles, hstem, ⟨dataset, hgives⟩, ?_⟩, hgives⟩
  rintro other hother hotherStem ⟨given, hgiven⟩
  have hplace := (hmem other).mp (mem_datasetFiles.mpr ⟨hother, hgiven.extension⟩)
  rw [List.mem_append, List.mem_cons] at hplace
  obtain hbehind | rfl | hbefore := hplace
  · have hnone := hlater other hbehind
    rw [loadedAs?_eq_some_iff.mpr ⟨hgiven.loaded, hotherStem⟩] at hnone
    cases hnone
  · exact List.le_refl _
  · exact hearlier other hbefore

/-- If a file with a stem is accepted, then some file is the last one of them. -/
theorem exists_prevails (hmem : file ∈ files) (hstem : FileName.stem? file.1 = some name)
    (haccepted : file.Accepted readers) :
    ∃ found, (datasetFiles files).reverse.findSome? (loadedAs? readers name) = some found ∧
      ∃ last, Prevails readers files name last ∧ last.Gives readers found := by
  obtain ⟨dataset, hgives⟩ := haccepted
  have hlisted := List.mem_reverse.mpr (mem_datasetFiles.mpr ⟨hmem, hgives.extension⟩)
  have hloaded : (loadedAs? readers name file).isSome = true := by
    rw [loadedAs?_eq_some_iff.mpr ⟨hgives.loaded, hstem⟩]
    rfl
  obtain ⟨found, hfound⟩ :=
    Option.isSome_iff_exists.mp (List.findSome?_isSome_iff.mpr ⟨file, hlisted, hloaded⟩)
  exact ⟨found, hfound, prevails_of_findSome? hfound⟩

theorem Prevails.unique (hpaths : (files.map Prod.fst).Nodup) {other : DirectoryFile}
    (h : Prevails readers files name file) (h' : Prevails readers files name other) : file = other := by
  have hle := h'.greatest file h.mem h.stem h.accepted
  have hge := h.greatest other h'.mem h'.stem h'.accepted
  exact List.inj_on_of_nodup_map hpaths h.mem h'.mem (List.le_antisymm hle hge)

/-- What prevails among some files prevails among others of which the same are accepted. -/
theorem Prevails.of_accepted (h : Prevails readers files name file)
    (hsame : ∀ file : DirectoryFile, file.Accepted readers → (file ∈ others ↔ file ∈ files)) :
    Prevails readers others name file where
  mem := (hsame file h.accepted).mpr h.mem
  stem := h.stem
  accepted := h.accepted
  greatest other hother hstem haccepted :=
    h.greatest other ((hsame other haccepted).mp hother) hstem haccepted

/-- What is found in the registry of a directory: what the files that prevail give. -/
theorem dataset?_ofFiles_eq_ok_iff (hpaths : (files.map Prod.fst).Nodup) {dataset : Dataset} :
    ((datasetFiles files).foldl (addFile readers) empty).dataset? name = .ok dataset ↔
      ∃ file, Prevails readers files name file ∧ file.Gives readers dataset := by
  have hlast : ((datasetFiles files).foldl (addFile readers) empty).dataset? name = .ok dataset ↔
      (datasetFiles files).reverse.findSome? (loadedAs? readers name) = some dataset := by
    rw [dataset?_foldl_addFile]
    cases (datasetFiles files).reverse.findSome? (loadedAs? readers name) with
    | none => exact iff_of_false (fun h => nomatch h) (fun h => nomatch h)
    | some found => simp
  rw [hlast]
  constructor
  · exact prevails_of_findSome?
  · rintro ⟨file, hprevails, hgives⟩
    obtain ⟨found, hfound, last, hlast, hlastGives⟩ :=
      exists_prevails hprevails.mem hprevails.stem hprevails.accepted
    cases hlast.unique hpaths hprevails
    cases hlastGives.loaded.symm.trans hgives.loaded
    exact hfound

/-- The registry of a directory does not depend on the order in which its files are listed.  Its names are the
stems of the accepted files, and under each is found what the one of the greatest path gives.  The files that are not
accepted change nothing. -/
theorem ofDirectory_in_any_order (readers : Readers) (hpaths : (files.map Prod.fst).Nodup) :
    ∃ registry : Registry,
      (∀ listing : List DirectoryFile, listing.Perm files →
        ofDirectory readers (.ok listing) = .ok registry) ∧
      (∀ name, registry.has name = true ↔
        ∃ file ∈ files, FileName.stem? file.1 = some name ∧ file.Accepted readers) ∧
      (∀ name dataset, registry.dataset? name = .ok dataset ↔
        ∃ file, Prevails readers files name file ∧ file.Gives readers dataset) ∧
      ∀ others : List DirectoryFile, (others.map Prod.fst).Nodup →
        (∀ file : DirectoryFile, file.Accepted readers → (file ∈ others ↔ file ∈ files)) →
        ofDirectory readers (.ok others) = .ok registry := by
  have hsame : ∀ others : List DirectoryFile, (others.map Prod.fst).Nodup →
      (∀ file : DirectoryFile, file.Accepted readers → (file ∈ others ↔ file ∈ files)) →
      ofDirectory readers (.ok others) = .ok ((datasetFiles files).foldl (addFile readers) empty) := by
    intro others hothers haccepted
    refine congrArg Except.ok (eq_of_dataset? fun name dataset => ?_)
    rw [dataset?_ofFiles_eq_ok_iff hothers, dataset?_ofFiles_eq_ok_iff hpaths]
    refine exists_congr fun file => and_congr_left fun _ => ⟨fun h => ?_, fun h => h.of_accepted haccepted⟩
    exact h.of_accepted fun file hfile => (haccepted file hfile).symm
  refine ⟨_, fun listing hperm => ?_, fun name => ?_, fun _ _ => dataset?_ofFiles_eq_ok_iff hpaths, hsame⟩
  · have hlisting : (listing.map Prod.fst).Nodup := (hperm.map Prod.fst).nodup_iff.mpr hpaths
    exact hsame listing hlisting fun _ _ => hperm.mem_iff
  · rw [has_eq_true_iff]
    simp only [dataset?_ofFiles_eq_ok_iff hpaths]
    constructor
    · rintro ⟨_, file, h, -⟩
      exact ⟨file, h.mem, h.stem, h.accepted⟩
    · rintro ⟨file, hmem, hstem, haccepted⟩
      obtain ⟨found, -, last, hlast, hgives⟩ := exists_prevails hmem hstem haccepted
      exact ⟨found, last, hlast, hgives⟩

/-- A file of one stem. -/
def geo (extension text : String) : DirectoryFile :=
  (.ofText ("data/geo." ++ extension), .ok text.toUTF8)

/-- A directory with two files that can be loaded.  Of the others one has another extension, one is no dataset,
and the name of one is no text. -/
def variants : List DirectoryFile :=
  [geo "zip" "title: third\nsections: \x7b\x7d",
    geo "yml" "sections: [",
    (Path.ofText "data/" ++ 0xFF :: Path.ofText ".json", .ok "\x7b\"sections\": \x7b\x7d\x7d".toUTF8),
    geo "json" "\x7b\"title\": \"first\", \"sections\": \x7b\x7d\x7d",
    geo "yaml" "title: second\nsections: \x7b\x7d"]

theorem gives_variant : ∃ dataset,
    (geo "yaml" "title: second\nsections: \x7b\x7d").Gives .builtin dataset ∧
      dataset.title = some "second" := by
  have hstem : FileName.stem? (.ofText ("data/geo." ++ "yaml")) = some "geo" := by decide +kernel
  have hread : (DatasetFile.ofText .builtin (.ofText ("data/geo." ++ "yaml"))
      "title: second\nsections: \x7b\x7d").map (fun file =>
        (Dataset.ofFile "geo" file).map (·.title)) = .ok (.ok (some "second")) := by decide +kernel
  obtain ⟨file, hfile, hbuilt⟩ := map_eq_ok_iff.mp hread
  obtain ⟨dataset, hdataset, htitle⟩ := map_eq_ok_iff.mp hbuilt
  have hload := Dataset.load_eq_ofFile hstem (Dataset.textOf_toUTF8 _) hfile
  exact ⟨dataset, ⟨⟨"yaml", by decide, by decide +kernel⟩, hload.trans hdataset⟩, htitle⟩

/-- The first three of the files are not accepted. -/
theorem mem_drop_variants (hmem : file ∈ variants) (haccepted : file.Accepted .builtin) :
    file ∈ variants.drop 3 := by
  obtain ⟨dataset, ⟨extension, hextension, hfound⟩, hload⟩ := haccepted
  obtain ⟨name, text, read, hstem, htext, hread, -⟩ := Dataset.exists_file_of_load hload
  simp only [variants, List.mem_cons, List.not_mem_nil, or_false] at hmem
  obtain rfl | rfl | rfl | hmem := hmem
  · have hzip : FileName.extension? (.ofText ("data/geo." ++ "zip")) = some "zip" := by decide +kernel
    cases hzip.symm.trans hfound
    revert hextension
    decide
  · cases (Dataset.textOf_toUTF8 _).symm.trans htext
    have hnone : (DatasetFile.ofText .builtin (.ofText ("data/geo." ++ "yml")) "sections: [").isOk =
        false := by decide +kernel
    cases (congrArg Except.isOk hread).symm.trans hnone
  · have hnone : FileName.stem? (Path.ofText "data/" ++ 0xFF :: Path.ofText ".json") = none := by
      decide +kernel
    cases hnone.symm.trans hstem
  · simpa [variants] using hmem

/-- The YAML file is the last one that can be loaded, in one order of the listing and in the other one, and also
without the three files that are not accepted. -/
theorem ofDirectory_in_any_order_of_variants :
    (variants.map Prod.fst).Nodup ∧ ∃ registry : Registry,
      ofDirectory .builtin (.ok variants) = .ok registry ∧
      ofDirectory .builtin (.ok variants.reverse) = .ok registry ∧
      ofDirectory .builtin (.ok (variants.drop 3)) = .ok registry ∧ registry.has "geo" = true ∧
      ∃ dataset, registry.dataset? "geo" = .ok dataset ∧ dataset.title = some "second" := by
  have hpaths : (variants.map Prod.fst).Nodup := by decide +kernel
  obtain ⟨dataset, hgives, htitle⟩ := gives_variant
  obtain ⟨registry, horder, hnames, hfound, hothers⟩ := ofDirectory_in_any_order .builtin hpaths
  have hprevails : Prevails .builtin variants "geo" _ := {
    mem := by simp [variants]
    stem := by decide +kernel
    accepted := ⟨dataset, hgives⟩
    greatest := by
      intro other hmem _ haccepted
      have hother := mem_drop_variants hmem haccepted
      simp only [variants, List.drop_succ_cons, List.drop_zero, List.mem_cons, List.not_mem_nil,
        or_false] at hother
      obtain rfl | rfl := hother
      · decide +kernel
      · exact List.le_refl _ }
  refine ⟨hpaths, registry, horder _ (.refl _), horder _ (List.reverse_perm _),
    hothers _ (by decide +kernel) fun file haccepted => ?_,
    (hnames "geo").mpr ⟨_, hprevails.mem, hprevails.stem, hprevails.accepted⟩, dataset,
    (hfound "geo" dataset).mpr ⟨_, hprevails, hgives⟩, htitle⟩
  exact ⟨List.mem_of_mem_drop, fun hmem => mem_drop_variants hmem haccepted⟩

end Registry

end TableQuery

import Protolink.Proofs.Ownership

/-!
# Extensions and extendees

A field counts as an extension if its descriptor names a message that it extends, also when the
name is empty.  A link follows the name only if it is not empty, and so it takes an extension
without a name, or with an empty one, for a field that extends nothing.  The theorem here says for
which files the extensions of a schema and the fields with an extendee are the same.
-/

namespace Protolink

namespace Field

/-- The field was linked, to a message that it extends. -/
def HasExtendee (f : Field) : Prop := ∃ m, f.extendee.get = .ok (some m)

theorem hasExtendee_linked (r : Registry Symbol) (f : Field) :
    (f.linked r).HasExtendee ↔ (f.extendedSymbol? r).isSome := by
  rw [Option.isSome_iff_exists]
  refine exists_congr fun m => ?_
  show Except.ok (f.extendedSymbol? r) = Except.ok (some m) ↔ _
  rw [Except.ok.injEq]

/-- Being an extension and having an extendee are the same but for an empty name. -/
theorem isExtension_iff_hasExtendee {f : Field}
    (h : f.HasExtendee ↔ ∃ e ∈ f.extendeeName, e ≠ "") :
    (f.isExtension ↔ f.HasExtendee) ↔ f.extendeeName ≠ some "" := by
  rw [h, isExtension]
  cases f.extendeeName with
  | none => simp
  | some e => simp

end Field

theorem File.exists_allFields_of_mem_allExtensions {f : File} {x : Field}
    (h : x ∈ f.allExtensions) : ∃ scope, (scope, x) ∈ f.allFields := by
  rw [allFields]
  rcases List.mem_append.mp h with top | inner
  · exact ⟨f.package, List.mem_append_right _ (List.mem_map_of_mem top)⟩
  · obtain ⟨m, hm, hx⟩ := List.mem_flatMap.mp inner
    refine ⟨m.fullName, List.mem_append_left _ (List.mem_flatMap.mpr ⟨m, hm, ?_⟩)⟩
    exact List.mem_map_of_mem (List.mem_append_right _ hx)

namespace Schema

variable {scheme : ImportScheme} {files : List FileDescriptor} {wanted : List String} {s : Schema}

/-- The fields of files that make a schema: each has the name of its extendee from its descriptor,
and has an extendee exactly if this name is there and not empty. -/
theorem forall₂_extendees (h : ofFiles scheme files wanted = .ok s) :
    List.Forall₂ (fun d f => List.Forall₂ (fun p q => q.2.extendeeName = p.2.extendee ∧
      (q.2.HasExtendee ↔ ∃ e ∈ q.2.extendeeName, e ≠ "")) d.allFields f.allFields)
      files s.files := by
  have faithful := faithful_of_ofFiles h
  obtain ⟨coherent, rfl⟩ := (ofFiles_eq_ok_iff scheme).mp h
  have hkeys := isSome_lookup_declared_iff scheme files wanted
  let r := (declared scheme files wanted).linked.registry
  have files_eq : (declared scheme files wanted).linked.files =
      files.map fun d => (d.node scheme (wanted.contains d.name)).linked r := List.map_map
  rw [files_eq, List.forall₂_map_right_iff]
  refine List.forall₂_same.mpr fun d hd => ?_
  have made := d.forall₂_allFields scheme (wanted.contains d.name)
    (R := fun scope x f => f.scope = scope ∧ f.extendeeName = x.extendee)
    fun _ _ _ _ => ⟨rfl, rfl⟩
  have denoted := (List.forall₂_and_left _ _).mpr ⟨coherent.fields d hd, made⟩
  rw [File.allFields_linked _ (d.fresh_node scheme _), List.forall₂_map_right_iff]
  refine denoted.imp ?_
  rintro p q ⟨hp, -, hscope, hname⟩
  refine ⟨hname, (Field.hasExtendee_linked r q.2).trans ?_⟩
  have means := Field.extendedSymbol?_means faithful hkeys hscope fun e he =>
    hp.extendee e (hname ▸ he)
  exact means.1

/-- A field in a schema has an extendee exactly if one is named in its descriptor. -/
theorem hasExtendee_iff (h : ofFiles scheme files wanted = .ok s) : ∀ f ∈ s.files,
    ∀ q ∈ f.allFields, q.2.HasExtendee ↔ ∃ e ∈ q.2.extendeeName, e ≠ "" :=
  forall_mem_right_of_forall₂ (forall₂_extendees h) fun _ _ hf =>
    forall_mem_right_of_forall₂ hf fun _ _ hq => hq.2

/-- An extension that is registered leads to a node with an extendee exactly if its declaration
names one. -/
theorem forall₂_extensionTable (h : ofFiles scheme files wanted = .ok s) :
    List.Forall₂ (fun p e => (∃ n ∈ p.2.decl.extendee, n ≠ "") ↔
        ∃ x, s.extension? e.1 = some x ∧ x.HasExtendee)
      (declarations (·.placedExtensions) files) (s.registry.table .extension) := by
  obtain ⟨coherent, -⟩ := (ofFiles_eq_ok_iff scheme).mp h
  have tabulates := tabulates_of_unlinked (unlinked_of_ofFiles h) coherent.distinct
  refine tabulates.extensionTable.imp ?_
  rintro ⟨d, p⟩ e ⟨hkey, x, found, -, made⟩
  obtain ⟨f, hf, hx⟩ := List.mem_flatMap.mp (List.mem_of_find?_eq_some found)
  obtain ⟨scope, mem⟩ := File.exists_allFields_of_mem_allExtensions hx
  have hname : x.extendeeName = p.decl.extendee := congrArg Field.extendeeName made
  have has := hasExtendee_iff h f hf _ mem
  rw [← hkey] at found
  rw [← hname, ← has, found]
  simp

/-- All registered extensions have an extendee exactly if all that are declared name one. -/
theorem extensions_have_extendees_iff (h : ofFiles scheme files wanted = .ok s) :
    (∀ e ∈ s.registry.table .extension, ∃ x, s.extension? e.1 = some x ∧ x.HasExtendee) ↔
      ∀ d ∈ files, ∀ p ∈ d.placedExtensions, ∃ n ∈ p.decl.extendee, n ≠ "" := by
  rw [← forall_mem_congr_of_forall₂ (forall₂_extensionTable h), declarations]
  simp only [List.forall_mem_flatMap, List.forall_mem_map]

/-- The extensions among the fields are those with an extendee exactly if no extendee is named by
an empty name. -/
theorem extensions_are_extending_iff (h : ofFiles scheme files wanted = .ok s) :
    (∀ f ∈ s.files, ∀ q ∈ f.allFields, q.2.isExtension ↔ q.2.HasExtendee) ↔
      ∀ d ∈ files, ∀ p ∈ d.allFields, p.2.extendee ≠ some "" := by
  refine (forall_mem_congr_of_forall₂ ((forall₂_extendees h).imp fun d f hf => ?_)).symm
  refine forall_mem_congr_of_forall₂ (hf.imp ?_)
  rintro p q ⟨hname, has⟩
  rw [← hname]
  exact (Field.isExtension_iff_hasExtendee has).symm

/-- When extensions and extendees agree in a schema that files make.  Every registered extension
has an extendee exactly if every declared one has a name for it that is not empty; and the
extensions among the fields are those with an extendee exactly if no field names its extendee by an
empty name. -/
theorem extendees_agree_iff (h : ofFiles scheme files wanted = .ok s) :
    ((∀ e ∈ s.registry.table .extension, ∃ x, s.extension? e.1 = some x ∧ x.HasExtendee) ↔
      ∀ d ∈ files, ∀ p ∈ d.placedExtensions, ∃ n ∈ p.decl.extendee, n ≠ "") ∧
    ((∀ f ∈ s.files, ∀ q ∈ f.allFields, q.2.isExtension ↔ q.2.HasExtendee) ↔
      ∀ d ∈ files, ∀ p ∈ d.allFields, p.2.extendee ≠ some "") :=
  ⟨extensions_have_extendees_iff h, extensions_are_extending_iff h⟩

/-- They agree in the schema that `shopFiles` make. -/
theorem extendees_agree_shopFiles :
    ∃ s, ofFiles .bundled shopFiles ["shop.proto"] = .ok s ∧
      (∀ e ∈ s.registry.table .extension, ∃ x, s.extension? e.1 = some x ∧ x.HasExtendee) ∧
      ∀ f ∈ s.files, ∀ q ∈ f.allFields, q.2.isExtension ↔ q.2.HasExtendee := by
  obtain ⟨s, hs⟩ := exists_ofFiles_shopFiles
  obtain ⟨extensions, fields⟩ := extendees_agree_iff hs
  exact ⟨s, hs, extensions.mpr (by decide +kernel), fields.mpr (by decide +kernel)⟩

/-- A file with an extension that names no message to extend, and with a field that names one by an
empty name. -/
def noteFiles : List FileDescriptor := [
  { name := "x.proto", package := "p"
    messages := [
      { name := "M"
        fields := [
          { name := "b", number := 1, label := some 1, kind := some .string
            extendee := some "" }] }]
    extensions := [{ name := "note", number := 100, label := some 1, kind := some .string }] }]

/-- Files that make a schema in which the two do not agree: an extension without an extendee goes
unnoticed, and so does a field that is an extension only by its empty name. -/
theorem extendees_disagree :
    ∃ s, ofFiles .bundled noteFiles ["x.proto"] = .ok s ∧
      ¬(∀ e ∈ s.registry.table .extension, ∃ x, s.extension? e.1 = some x ∧ x.HasExtendee) ∧
      ¬∀ f ∈ s.files, ∀ q ∈ f.allFields, q.2.isExtension ↔ q.2.HasExtendee := by
  obtain ⟨s, hs⟩ : ∃ s, ofFiles .bundled noteFiles ["x.proto"] = .ok s :=
    exists_ofFiles_of_isOk (by decide +kernel)
  refine ⟨s, hs, ?_, ?_⟩
  · rw [extensions_have_extendees_iff hs]
    decide +kernel
  · rw [extensions_are_extending_iff hs]
    decide +kernel

end Schema

end Protolink

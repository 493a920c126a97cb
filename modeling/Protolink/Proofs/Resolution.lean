import Protolink.Proofs.Nodes

/-!
# Resolved schemas

In a schema that files make, every reference was followed.  `Schema.ofFiles_resolved` goes through
the declarations of the files and says of each what its node refers to: that which its spelling
means in the complete registry, from the scope that the declaration is in.
-/

namespace Protolink

/-! ## What a spelling stands for -/

/-- A spelling that is used in a scope stands for a symbol: the registry of the schema resolves it
to this symbol, and the symbol is registered under its own full name and leads to a node. -/
structure Schema.Means (s : Schema) (kind : DeclKind) (scope typeName : String) (t : Symbol) :
    Prop where
  resolved : s.registry.resolve [kind] scope typeName = some t
  kind_eq : t.kind = kind
  registered : s.registry.lookup kind t.fullName = some t
  holds : s.Holds t

theorem Schema.Faithful.means_of_resolve {s : Schema} (hs : s.Faithful) {kind : DeclKind}
    {scope typeName : String} {t : Symbol} (h : s.registry.resolve [kind] scope typeName = some t) :
    s.Means kind scope typeName t := by
  obtain ⟨c, -, hc⟩ := Registry.exists_lookup_of_resolve h
  obtain ⟨hkey, ht⟩ := hs.holds_of_lookup hc
  obtain ⟨rfl, rfl⟩ := Prod.mk.inj hkey
  exact ⟨h, rfl, hc, ht⟩

/-! ## Followed references -/

/-- All references of a field were followed from a scope, as its descriptor says: it has an enum
exactly if it is of that kind, a message exactly if it is of a kind that has one, and an extended
message exactly if one is named. -/
structure Field.Follows (s : Schema) (scope : String) (d : FieldDescriptor) (f : Field) : Prop where
  name : f.name = d.name
  kind : some f.kind = d.kind
  enumType : ∃ t, f.enumType.get = .ok t ∧ (t.isSome ↔ d.kind = some .enum) ∧
    ∀ e ∈ t, s.Means .enum scope d.typeName e
  message : ∃ t, f.message.get = .ok t ∧
    (t.isSome ↔ d.kind = some .message ∨ d.kind = some .group) ∧
    ∀ m ∈ t, s.Means .message scope d.typeName m
  extendee : ∃ t, f.extendee.get = .ok t ∧ (t.isSome ↔ ∃ e ∈ d.extendee, e ≠ "") ∧
    ∀ m ∈ t, ∃ e ∈ d.extendee, s.Means .message scope e m

/-- Both types of a method were followed from its service. -/
structure Method.Follows (s : Schema) (service : String) (d : MethodDescriptor) (m : Method) :
    Prop where
  name : m.name = d.name
  input : ∃ t, m.input.get = .ok t ∧ s.Means .message service d.input t
  output : ∃ t, m.output.get = .ok t ∧ s.Means .message service d.output t

namespace File

/-- The fields and extensions of a file at any depth, listed or not, with the scopes that they are
in. -/
def allFields (f : File) : List (String × Field) :=
  f.allMessages.flatMap (fun m => (m.fields ++ m.extensions).map (m.fullName, ·))
    ++ f.extensions.map (f.package, ·)

/-- The methods of a file, with the full names of their services. -/
def allMethods (f : File) : List (String × Method) :=
  f.ownServices.flatMap fun v => v.methods.map (v.fullName, ·)

theorem allFields_linked (r : Registry Symbol) {f : File} (h : f.Fresh) :
    (f.linked r).allFields = f.allFields.map fun p => (p.1, p.2.linked r) := by
  rw [allFields, allMessages_linked r h, List.flatMap_map, allFields, List.map_append,
    List.map_flatMap, linked, List.map_map, List.map_map]
  simp only [Message.toMessageBody_mapListed, MessageBody.linked, ← List.map_append, List.map_map]
  rfl

theorem allMethods_linked (r : Registry Symbol) {f : File} (h : f.Fresh) :
    (f.linked r).allMethods = f.allMethods.map fun p => (p.1, p.2.linked r p.1) := by
  rw [allMethods, ownServices_linked r h, List.flatMap_map, allMethods, List.map_flatMap]
  simp only [Service.linked, List.map_map]
  rfl

/-- Every declaration in a file that refers to others has a node whose references were followed, and
so were the imports of the file. -/
structure Follows (s : Schema) (d : FileDescriptor) (f : File) : Prop where
  name : f.name = d.name
  fields : List.Forall₂ (fun p q => q.1 = p.1 ∧ q.2.Follows s p.1 p.2) d.allFields f.allFields
  methods : List.Forall₂ (fun p q => q.1 = p.1 ∧ q.2.Follows s p.1 p.2) d.allMethods f.allMethods
  dependencies : List.Forall₂ (fun n t => t.fullName = n ∧ s.registry.lookup .file n = some t ∧
    s.Holds t) d.dependencies f.dependencies

end File

/-- All references of a field were followed, from some scope. -/
def Field.Followed (s : Schema) (x : Field) : Prop := ∃ scope d, x.Follows s scope d

namespace File

variable {s : Schema} {d : FileDescriptor} {f : File}

theorem Follows.followed (h : f.Follows s d) : ∀ p ∈ f.allFields, p.2.Followed s := by
  refine forall_mem_right_of_forall₂ h.fields ?_
  rintro p q ⟨-, hq⟩
  exact ⟨p.1, p.2, hq⟩

theorem Follows.field_followed (h : f.Follows s d) {m : Message} (hm : m ∈ f.allMessages) :
    ∀ x ∈ m.fields, x.Followed s := by
  intro x hx
  exact h.followed (m.fullName, x) (List.mem_append_left _ (List.mem_flatMap_of_mem hm
    (List.mem_map_of_mem (List.mem_append_left _ hx))))

theorem Follows.extension_followed (h : f.Follows s d) : ∀ x ∈ f.extensions, x.Followed s := by
  intro x hx
  exact h.followed (f.package, x) (List.mem_append_right _ (List.mem_map_of_mem hx))

end File

/-! ## Nodes that are made and linked -/

/-- The fields in the node of a file are made of those that the file declares. -/
theorem FileDescriptor.forall₂_allFields {R : String → FieldDescriptor → Field → Prop}
    (d : FileDescriptor) (scheme : ImportScheme) (generate : Bool)
    (h : ∀ parent oneof path x, R ((d.source scheme).scope parent) x
      ((d.source scheme).fieldNode parent oneof path x)) :
    List.Forall₂ (fun p q => q.1 = p.1 ∧ R p.1 p.2 q.2) d.allFields
      (d.node scheme generate).allFields := by
  -- The full name of a message goes along with its fields, because it is their scope.
  let Body (p : String × MessageDecl) (b : MessageBody) : Prop := b.fullName = p.1 ∧
    List.Forall₂ (R p.1) (p.2.fields ++ p.2.extensions) (b.fields ++ b.extensions)
  have body (parent : Option String) (path : List Int) (m : MessageDecl) :
      Body (Name.join ((d.source scheme).scope parent) m.name, m)
        ((d.source scheme).bodyNode parent path m) := by
    refine ⟨Source.bodyNode_fullName parent path m, ?_⟩
    rw [Source.bodyNode_fields, Source.bodyNode_extensions]
    exact List.rel_append (forall₂_map_zipIdx (fun x i => h (some _) _ _ x) m.fields 0)
      (forall₂_map_zipIdx (fun x i => h (some _) _ _ x) m.extensions 0)
  rw [allFields, File.allFields]
  refine List.rel_append
    (List.rel_flatMap (d.forall₂_allMessages scheme generate (R := Body) body) ?_) ?_
  · rintro p n ⟨hname, hfields⟩
    rw [List.forall₂_map_left_iff, List.forall₂_map_right_iff]
    exact hfields.imp fun x f hx => ⟨hname, hx⟩
  · rw [List.forall₂_map_left_iff, List.forall₂_map_right_iff]
    exact forall₂_map_zipIdx (fun x i => ⟨rfl, h none none _ x⟩) d.extensions 0

/-- The methods in the node of a file are made of those that the file declares. -/
theorem FileDescriptor.forall₂_allMethods {R : String → MethodDescriptor → Method → Prop}
    (d : FileDescriptor) (scheme : ImportScheme) (generate : Bool)
    (h : ∀ service path i m, R service m ((d.source scheme).methodNode service path i m)) :
    List.Forall₂ (fun p q => q.1 = p.1 ∧ R p.1 p.2 q.2) d.allMethods
      (d.node scheme generate).allMethods := by
  let Body (v : ServiceDescriptor) (w : Service) : Prop := w.fullName = Name.join d.package v.name ∧
    List.Forall₂ (R (Name.join d.package v.name)) v.methods w.methods
  rw [allMethods, File.allMethods]
  refine List.rel_flatMap (R := Body) ?_ ?_
  · refine forall₂_map_zipIdx (fun v i => ⟨rfl, ?_⟩) d.services 0
    exact forall₂_map_zipIdx (fun m i => h _ _ i m) v.methods 0
  · rintro v w ⟨hname, hmethods⟩
    rw [List.forall₂_map_left_iff, List.forall₂_map_right_iff]
    exact hmethods.imp fun m n hn => ⟨hname, hn⟩

section Linked

variable {s : Schema} (hs : s.Faithful) {keys : List (DeclKind × String)}
  (hkeys : ∀ kind key, (s.registry.lookup kind key).isSome ↔ (kind, key) ∈ keys)

include hs hkeys

theorem exists_means {kind : DeclKind} {scope typeName : String}
    (h : Denotes keys kind scope typeName) :
    ∃ t, s.registry.resolve [kind] scope typeName = some t ∧ s.Means kind scope typeName t := by
  obtain ⟨t, ht⟩ := Option.isSome_iff_exists.mp ((Source.isSome_resolve_iff_denotes hkeys).mpr h)
  exact ⟨t, ht, hs.means_of_resolve ht⟩

/-- The type of a field is in the table that its kind asks for, and in no other. -/
theorem Field.targetSymbol?_means {f : Field} {scope : String} (hscope : f.scope = scope)
    (h : ∀ kind, f.kind.targetKind? = some kind → Denotes keys kind scope f.typeName)
    (kind : DeclKind) :
    (((f.targetSymbol? s.registry).filter (·.kind == kind)).isSome ↔
      f.kind.targetKind? = some kind) ∧
    ∀ t ∈ (f.targetSymbol? s.registry).filter (·.kind == kind),
      s.Means kind scope f.typeName t := by
  subst hscope
  unfold targetSymbol?
  cases hkind : f.kind.targetKind? with
  | none => simp
  | some kind' =>
    obtain ⟨t, ht, means⟩ := exists_means hs hkeys (h kind' hkind)
    rw [Option.bind_some, ht]
    by_cases hk : kind' = kind
    · subst hk
      simpa [Option.filter, means.kind_eq] using means
    · simp [Option.filter, means.kind_eq, hk]

theorem Field.extendedSymbol?_means {f : Field} {scope : String} (hscope : f.scope = scope)
    (h : ∀ e ∈ f.extendeeName, e ≠ "" → Denotes keys .message scope e) :
    ((f.extendedSymbol? s.registry).isSome ↔ ∃ e ∈ f.extendeeName, e ≠ "") ∧
    ∀ t ∈ f.extendedSymbol? s.registry, ∃ e ∈ f.extendeeName, s.Means .message scope e t := by
  subst hscope
  unfold extendedSymbol?
  cases hextendee : f.extendeeName with
  | none => simp
  | some e =>
    by_cases he : e = ""
    · simp [Option.filter, he]
    · obtain ⟨t, ht, means⟩ := exists_means hs hkeys (h e hextendee he)
      simpa [Option.filter, he, ht] using means

/-- The node of a field, once it is linked. -/
theorem Source.fieldNode_follows (src : Source) (parent : Option String) (oneof : Option Nat)
    (path : List Int) {d : FieldDescriptor} (hkind : d.kind.isSome)
    (h : d.Denotes keys (src.scope parent)) :
    ((src.fieldNode parent oneof path d).linked s.registry).Follows s (src.scope parent) d := by
  obtain ⟨kind, hkind⟩ := Option.isSome_iff_exists.mp hkind
  have target := Field.targetSymbol?_means hs hkeys (f := src.fieldNode parent oneof path d) rfl
    (fun k hk => (h.target k (by simpa [fieldNode, hkind] using hk)).2)
  have kind_eq : (src.fieldNode parent oneof path d).kind = kind := by simp [fieldNode, hkind]
  rw [kind_eq] at target
  constructor
  · rfl
  · exact (congrArg some kind_eq).trans hkind.symm
  · refine ⟨_, rfl, (target .enum).1.trans ?_, (target .enum).2⟩
    rw [hkind]
    cases kind <;> simp [FieldKind.targetKind?]
  · refine ⟨_, rfl, (target .message).1.trans ?_, (target .message).2⟩
    rw [hkind]
    cases kind <;> simp [FieldKind.targetKind?]
  · exact ⟨_, rfl, Field.extendedSymbol?_means hs hkeys
      (f := src.fieldNode parent oneof path d) rfl h.extendee⟩

theorem Source.methodNode_follows (src : Source) (service : String) (path : List Int) (i : Nat)
    {d : MethodDescriptor} (h : d.Denotes keys service) :
    ((src.methodNode service path i d).linked s.registry service).Follows s service d := by
  obtain ⟨i, hi, input⟩ := exists_means hs hkeys h.input.2
  obtain ⟨o, ho, output⟩ := exists_means hs hkeys h.output.2
  constructor
  · rfl
  · refine ⟨i, ?_, input⟩
    simp [Method.linked, methodNode, Slot.get, hi]
  · refine ⟨o, ?_, output⟩
    simp [Method.linked, methodNode, Slot.get, ho]

theorem FileDescriptor.allFields_linked_node (d : FileDescriptor) (scheme : ImportScheme)
    (generate : Bool) :
    List.Forall₂ (fun p q => p.2.kind.isSome ∧ p.2.Denotes keys p.1 →
      q.1 = p.1 ∧ q.2.Follows s p.1 p.2) d.allFields
        ((d.node scheme generate).linked s.registry).allFields := by
  have made := d.forall₂_allFields scheme generate
    (R := fun scope x f => x.kind.isSome ∧ x.Denotes keys scope →
      (f.linked s.registry).Follows s scope x)
    fun parent oneof path _ h =>
      (d.source scheme).fieldNode_follows hs hkeys parent oneof path h.1 h.2
  rw [File.allFields_linked _ (d.fresh_node scheme generate), List.forall₂_map_right_iff]
  exact made.imp fun p q hq h => ⟨hq.1, hq.2 h⟩

theorem FileDescriptor.allMethods_linked_node (d : FileDescriptor) (scheme : ImportScheme)
    (generate : Bool) :
    List.Forall₂ (fun p q => p.2.Denotes keys p.1 → q.1 = p.1 ∧ q.2.Follows s p.1 p.2)
      d.allMethods ((d.node scheme generate).linked s.registry).allMethods := by
  have made := d.forall₂_allMethods scheme generate
    (R := fun service m n => m.Denotes keys service →
      (n.linked s.registry service).Follows s service m)
    fun service path i _ h => (d.source scheme).methodNode_follows hs hkeys service path i h
  rw [File.allMethods_linked _ (d.fresh_node scheme generate), List.forall₂_map_right_iff]
  refine made.imp fun p q hq h => ⟨hq.1, ?_⟩
  rw [hq.1]
  exact hq.2 h

/-- The node of a file whose references all denote something, once it is linked. -/
theorem FileDescriptor.linked_node_follows (d : FileDescriptor) (scheme : ImportScheme)
    (generate : Bool) (sound : d.Sound) (dependencies : ∀ n ∈ d.dependencies, (.file, n) ∈ keys)
    (fields : ∀ p ∈ d.allFields, p.2.Denotes keys p.1)
    (methods : ∀ p ∈ d.allMethods, p.2.Denotes keys p.1) :
    ((d.node scheme generate).linked s.registry).Follows s d := by
  constructor
  · rfl
  · have made := d.allFields_linked_node hs hkeys scheme generate
    have denoted : ∀ p ∈ d.allFields, p.2.kind.isSome ∧ p.2.Denotes keys p.1 :=
      fun p hp => ⟨(sound.allFields p hp).kind, fields p hp⟩
    exact ((List.forall₂_and_left _ _).mpr ⟨denoted, made⟩).imp fun p q h => h.2 h.1
  · have made := d.allMethods_linked_node hs hkeys scheme generate
    exact ((List.forall₂_and_left _ _).mpr ⟨methods, made⟩).imp fun p q h => h.2 h.1
  · have lookup (n : String) (hn : n ∈ d.dependencies) :
        ∃ t, s.registry.lookup .file n = some t ∧ t.fullName = n ∧
          s.registry.lookup .file n = some t ∧ s.Holds t := by
      obtain ⟨t, ht⟩ := Option.isSome_iff_exists.mp ((hkeys .file n).mpr (dependencies n hn))
      obtain ⟨hkey, holds⟩ := hs.holds_of_lookup ht
      exact ⟨t, ht, (Prod.mk.inj hkey).2, ht, holds⟩
    exact forall₂_filterMap lookup

end Linked

namespace Schema

variable {scheme : ImportScheme} {files : List FileDescriptor} {wanted : List String}

/-- The nodes of coherent files are linked in the registry of all of them. -/
theorem linked_node_follows (hc : Coherent files wanted) : ∀ d ∈ files, File.Follows
    (declared scheme files wanted).linked d
    ((d.node scheme (wanted.contains d.name)).linked (declared scheme files wanted).registry) := by
  have hs := faithful_of_ofFiles ((ofFiles_eq_ok_iff scheme).mpr ⟨hc, rfl⟩)
  have hkeys := isSome_lookup_declared_iff scheme files wanted
  intro d hd
  refine d.linked_node_follows hs hkeys scheme _ (hc.sound d hd) (fun n hn => ?_)
    (hc.fields d hd) (hc.methods d hd)
  exact FileDescriptor.file_mem_flatMap_keys_iff.mpr (hc.dependencies d hd n hn)

theorem exists_follows {s : Schema} (h : ofFiles scheme files wanted = .ok s) :
    ∀ f ∈ s.files, ∃ d, f.Follows s d := by
  obtain ⟨hc, rfl⟩ := (ofFiles_eq_ok_iff scheme).mp h
  intro f hf
  obtain ⟨g, hg, rfl⟩ := List.mem_map.mp hf
  obtain ⟨d, hd, rfl⟩ := List.mem_map.mp hg
  exact ⟨d, linked_node_follows hc d hd⟩

end Schema

/-- In a schema that files make, the references of all declarations of all files were followed in
the complete registry, at any depth and whether the node is listed or not. -/
theorem Schema.ofFiles_resolved {scheme : ImportScheme} {files : List FileDescriptor}
    {wanted : List String} {s : Schema} (h : Schema.ofFiles scheme files wanted = .ok s) :
    List.Forall₂ (File.Follows s) files s.files := by
  obtain ⟨hc, rfl⟩ := (ofFiles_eq_ok_iff scheme).mp h
  let r := (declared scheme files wanted).linked.registry
  have files_eq : (declared scheme files wanted).linked.files =
      files.map fun d => (d.node scheme (wanted.contains d.name)).linked r := List.map_map
  rw [files_eq, List.forall₂_map_right_iff]
  exact List.forall₂_same.mpr (linked_node_follows hc)

/-- Two files of which the first imports the second twice and refers to it by full names, and by
relative ones to itself.  The key of its map carries a type name that means nothing. -/
def shopFiles : List FileDescriptor := [
  { name := "shop.proto", package := "shop", dependencies := ["base.proto", "base.proto"]
    messages := [
      { name := "Order"
        fields := [
          { name := "state", number := 1, label := some 1, kind := some .enum
            typeName := "State" },
          { name := "items", number := 2, label := some 3, kind := some .message
            typeName := "Order.ItemsEntry" }]
        enums := [{ name := "State" }]
        nested := [
          { name := "ItemsEntry", isMapEntry := true
            fields := [
              { name := "key", number := 1, label := some 1, kind := some .string
                typeName := "Nothing" },
              { name := "value", number := 2, label := some 1, kind := some .message
                typeName := ".base.Item" }] }] }]
    services := [
      { name := "Shop"
        methods := [{ name := "Buy", input := "Order", output := "base.Item" }] }] },
  { name := "base.proto", package := "base"
    messages := [{ name := "Item" }]
    extensions := [
      { name := "note", number := 7, label := some 1, kind := some .string
        extendee := some "Item" }] }]

theorem exists_ok_of_isOk {α ε : Type} {x : Except ε α} (ok : x.isOk) : ∃ a, x = .ok a := by
  cases x with
  | error e => cases ok
  | ok a => exact ⟨a, rfl⟩

theorem exists_ofFiles_of_isOk {scheme : ImportScheme} {files : List FileDescriptor}
    {wanted : List String} (ok : (Schema.ofFiles scheme files wanted).isOk) :
    ∃ s, Schema.ofFiles scheme files wanted = .ok s := exists_ok_of_isOk ok

theorem exists_ofFiles_shopFiles :
    ∃ s, Schema.ofFiles .bundled shopFiles ["shop.proto"] = .ok s :=
  exists_ofFiles_of_isOk (by decide +kernel)

theorem Schema.ofFiles_resolved_shopFiles :
    ∃ s, Schema.ofFiles .bundled shopFiles ["shop.proto"] = .ok s ∧
      List.Forall₂ (File.Follows s) shopFiles s.files := by
  obtain ⟨s, hs⟩ := exists_ofFiles_shopFiles
  exact ⟨s, hs, ofFiles_resolved hs⟩

end Protolink

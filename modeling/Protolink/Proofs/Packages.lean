import Protolink.Proofs.Ownership

/-!
# Packages

A registry tells the package of a declaration from the declaration itself.  A schema has the files
of a package and what is in them.  Both give the same: the declarations of a package are those in
its files, in the order of their registration, and no declaration is in files of two packages.  At
the top level they are what the files list, although what is inside messages is registered between
it.

Main statement: `Schema.packages_agree`.
-/

namespace Protolink

/-! ## What stands at the top level -/

namespace MessageDescriptor

variable (o : Origin)

mutual

/-- What is declared inside a message knows a message around it. -/
theorem parent_of_mem_innerSymbols (fullName : String) : ∀ m : MessageDescriptor,
    ∀ t ∈ m.innerSymbols o fullName, t.parent.isSome
  | ⟨d, nested⟩ => by
    intro t ht
    simp only [innerSymbols, MessageDecl.symbols, List.mem_append, List.mem_map] at ht
    obtain ht | ⟨e, -, rfl⟩ | ⟨x, -, rfl⟩ := ht
    · exact parent_of_mem_symbolsOf fullName nested t ht
    · rfl
    · rfl

theorem parent_of_mem_symbolsOf (parent : String) : ∀ ms : List MessageDescriptor,
    ∀ t ∈ symbolsOf o (some parent) ms, t.parent.isSome
  | [] => nofun
  | m :: ms => by
    rw [symbolsOf, List.forall_mem_append, List.forall_mem_cons]
    exact ⟨⟨rfl, parent_of_mem_innerSymbols _ m⟩, parent_of_mem_symbolsOf parent ms⟩

end

/-- Of what is registered of the messages of a file, these messages alone stand at the top level. -/
theorem filter_top_symbolsOf (ms : List MessageDescriptor) :
    (symbolsOf o none ms).filter (·.parent.isNone) =
      ms.map fun m => o.symbol .message none m.name := by
  rw [symbolsOf_eq_flatMap, List.filter_flatMap, List.map_eq_flatMap]
  refine List.flatMap_congr fun m _ => ?_
  rw [List.filter_cons_of_pos rfl, List.filter_eq_nil_iff.mpr]
  intro t ht
  simp [Option.isSome_iff_ne_none.mp (m.parent_of_mem_innerSymbols o _ t ht)]

end MessageDescriptor

theorem Origin.filter_top_map_symbol {α : Type} (o : Origin) (kind : DeclKind) (name : α → String)
    (as : List α) : (as.map fun a => o.symbol kind none (name a)).filter (·.parent.isNone) =
      as.map fun a => o.symbol kind none (name a) :=
  List.filter_eq_self.mpr (List.forall_mem_map.mpr fun _ _ => rfl)

namespace FileDescriptor

variable (d : FileDescriptor)

/-- The symbols of what stands at the top level of a file, in the order of registration. -/
theorem filter_top_symbols (o : Origin) : (d.symbols o).filter (·.parent.isNone) =
    ⟨.file, o.name, o, none⟩ :: (d.messages.map (fun m => o.symbol .message none m.name)
      ++ d.enums.map (fun e => o.symbol .enum none e.name)
      ++ d.services.map (fun s => o.symbol .service none s.name)
      ++ d.extensions.map fun x => o.symbol .extension none x.name) := by
  rw [symbols, List.filter_cons_of_pos rfl]
  simp only [List.filter_append, MessageDescriptor.filter_top_symbolsOf, o.filter_top_map_symbol]

variable (scheme : ImportScheme) (generate : Bool)

theorem map_symbol_messages_node : (d.node scheme generate).messages.map (·.symbol) =
    ((d.symbols (d.source scheme).origin).filter (·.parent.isNone)).filter
      (·.kind == .message) := by
  have own : (d.node scheme generate).ownMessages.map (·.symbol) =
      d.messages.map fun m => (d.source scheme).origin.symbol .message none m.name := by
    rw [← map_zipIdx_fst _ d.messages 0, node, List.map_map]
    exact List.map_congr_left fun m _ => (d.source scheme).symbol_messageAt ⟨none, _, m.1⟩
  rw [(d.rooted_node scheme generate).messages_eq, own, filter_top_symbols]
  simp [Origin.filter_map_symbol]

theorem map_symbol_enums_node : (d.node scheme generate).enums.map (·.symbol) =
    ((d.symbols (d.source scheme).origin).filter (·.parent.isNone)).filter (·.kind == .enum) := by
  rw [(d.rooted_node scheme generate).enums_eq, d.map_symbol_ownEnums_node, filter_top_symbols]
  simp [Origin.filter_map_symbol]

end FileDescriptor

theorem File.map_symbol_messages_unlinked (f : File) :
    f.unlinked.messages.map (·.symbol) = f.messages.map (·.symbol) := by
  have complete (m : Message) : m.unlinked.isComplete = m.isComplete := by
    rw [Message.unlinked, Message.toMessageBody_map]
    rfl
  simp only [messages, unlinked, List.filter_map, List.map_map, Function.comp_def, complete]
  exact List.map_congr_left fun m _ => Nodes.messages.symbol_unlinked m

/-! ## Packages of files that are made -/

/-- Distinct keys, among which are those of all elements, share the elements of a list. -/
theorem flatMap_filter_perm {α γ : Type} [DecidableEq γ] {key : α → γ} {as : List α}
    {keys : List γ} (has : as.Nodup) (distinct : keys.Nodup) (covered : ∀ a ∈ as, key a ∈ keys) :
    (keys.flatMap fun k => as.filter fun a => key a = k).Perm as := by
  have once : (keys.flatMap fun k => as.filter fun a => key a = k).Nodup := by
    refine List.nodup_flatMap.mpr ⟨fun k _ => has.filter _, distinct.imp fun ne a ha hb => ne ?_⟩
    rw [← of_decide_eq_true (List.mem_filter.mp ha).2, of_decide_eq_true (List.mem_filter.mp hb).2]
  refine (List.perm_ext_iff_of_nodup once has).mpr fun a => ?_
  simp only [List.mem_flatMap, List.mem_filter, decide_eq_true_eq]
  exact ⟨fun ⟨_, _, ha, _⟩ => ha, fun ha => ⟨key a, covered a ha, ha, rfl⟩⟩

theorem Registry.byPackage_eq_filter (r : Registry Symbol) (kind : DeclKind) (package : String) :
    r.byPackage kind package = (r.all kind).filter fun t => t.origin.package = package :=
  List.filter_congr fun t _ => by simp [Symbol.isIn, beq_eq_decide]

namespace Schema

/-- The files of a package, in the order of their registration. -/
def filesOf (s : Schema) (package : String) : List File := s.files.filter (·.package == package)

variable {s : Schema}

theorem mem_filesOf {package : String} {f : File} :
    f ∈ s.filesOf package ↔ f ∈ s.files ∧ f.package = package := by
  rw [filesOf, List.mem_filter, beq_iff_eq]

section Made

variable {scheme : ImportScheme} {generate : FileDescriptor → Bool} {files : List FileDescriptor}
  (hs : s.unlinked = made scheme generate files)

include hs

/-- What the files of a package have, if it can be told before they are linked. -/
theorem flatMap_filesOf_of_made {α : Type} (g : File → List α) (hg : ∀ f, g f.unlinked = g f)
    (package : String) : (s.filesOf package).flatMap g =
      files.flatMap fun d =>
        if d.package == package then g (d.node scheme (generate d)) else [] := by
  have unlinked : s.files.flatMap (fun f => if f.package == package then g f else []) =
      s.unlinked.files.flatMap fun f => if f.package == package then g f else [] := by
    rw [Schema.unlinked, List.flatMap_map]
    simp only [hg]
    rfl
  rw [filesOf, flatMap_filter, unlinked, hs, made, List.flatMap_map]
  rfl

/-- The declarations of a package, file by file. -/
theorem byPackage_of_made (kind : DeclKind) (package : String) (topLevelOnly : Bool) :
    s.registry.byPackage kind package topLevelOnly = files.flatMap fun d =>
      if d.package == package then
        ((d.symbols (d.source scheme).origin).filter (·.kind == kind)).filter fun t =>
          !(topLevelOnly && t.isNestedType)
      else [] := by
  rw [Registry.byPackage, all_of_made hs, List.filter_flatMap]
  refine List.flatMap_congr fun d _ => ?_
  have package_eq : ∀ t ∈ (d.symbols (d.source scheme).origin).filter (·.kind == kind),
      t.origin.package = d.package := by
    intro t ht
    rw [FileDescriptor.origin_of_mem_symbols (List.mem_of_mem_filter ht)]
    rfl
  split
  · next same =>
    refine List.filter_congr fun t ht => ?_
    rw [Symbol.isIn, package_eq t ht, same, Bool.true_and]
  · next other =>
    refine List.filter_eq_nil_iff.mpr fun t ht => ?_
    rw [Symbol.isIn, package_eq t ht]
    simp [other]

/-- At the top level, a package has of each kind what its files have there. -/
theorem byPackage_top_of_made {kind : DeclKind} (nests : kind = .message ∨ kind = .enum)
    (package : String) : s.registry.byPackage kind package true = files.flatMap fun d =>
      if d.package == package then
        ((d.symbols (d.source scheme).origin).filter (·.parent.isNone)).filter (·.kind == kind)
      else [] := by
  rw [byPackage_of_made hs]
  refine List.flatMap_congr fun d _ => ?_
  split
  · rw [List.filter_filter, List.filter_filter]
    refine List.filter_congr fun t _ => ?_
    by_cases h : t.kind = kind
    · rcases nests with rfl | rfl <;> simp [Symbol.isNestedType, h]
    · have other : (t.kind == kind) = false := by simpa using h
      simp [other]
  · rfl

theorem byPackage_messages_of_made (package : String) :
    s.registry.byPackage .message package true =
      ((s.filesOf package).flatMap (·.messages)).map (·.symbol) := by
  rw [byPackage_top_of_made hs (.inl rfl), List.map_flatMap,
    flatMap_filesOf_of_made hs _ File.map_symbol_messages_unlinked]
  simp only [FileDescriptor.map_symbol_messages_node]

theorem byPackage_enums_of_made (package : String) :
    s.registry.byPackage .enum package true =
      ((s.filesOf package).flatMap (·.enums)).map (·.symbol) := by
  rw [byPackage_top_of_made hs (.inr rfl), List.map_flatMap,
    flatMap_filesOf_of_made hs _ fun _ => rfl]
  simp only [FileDescriptor.map_symbol_enums_node]

theorem byPackage_files_of_made (package : String) :
    s.registry.byPackage .file package = (s.filesOf package).map File.symbol := by
  rw [byPackage_of_made hs, List.map_eq_flatMap,
    flatMap_filesOf_of_made hs (fun f => [f.symbol]) fun _ => rfl]
  simp only [FileDescriptor.filter_file_symbols, Bool.false_and, Bool.not_false, List.filter_true]
  rfl

/-- The symbols in the files of a schema are what is registered. -/
theorem mem_all_of_made (distinct : (files.flatMap FileDescriptor.keys).Nodup) {kind : DeclKind}
    {t : Symbol} : t ∈ s.registry.all kind ↔ (∃ f ∈ s.files, t ∈ f.symbols) ∧ t.kind = kind := by
  have registry : s.registry = (⟨[]⟩ : Registry Symbol).extend (symbols scheme files) :=
    congrArg Schema.registry hs
  have registered : t ∈ symbols scheme files ↔ ∃ f ∈ s.files, t ∈ f.symbols := by
    have lookup := (faithful_of_made hs distinct).lookup t.kind t.fullName t
    rw [registry, Registry.lookup_eq_some_iff (nodup_key_symbols scheme distinct)] at lookup
    simpa [Symbol.key] using lookup
  rw [all_of_made hs, ← List.filter_flatMap, List.mem_filter, beq_iff_eq, ← registered, symbols]

theorem nodup_all_of_made (distinct : (files.flatMap FileDescriptor.keys).Nodup)
    (kind : DeclKind) : (s.registry.all kind).Nodup := by
  rw [all_of_made hs, ← List.filter_flatMap]
  exact (nodup_key_symbols scheme distinct).of_map.filter _

end Made

/-! ## The theorem -/

/-- What the registry of a schema holds of packages, compared with the files of the schema. -/
structure Packaged (s : Schema) : Prop where
  once : ∀ kind, (s.registry.all kind).Nodup
  /-- Every declaration is in one file. -/
  owner : ∀ kind, ∀ t ∈ s.registry.all kind, ∃! f, f ∈ s.files ∧ t ∈ f.symbols
  /-- The declarations of a package are in the order in which they are registered. -/
  owned : ∀ kind package, s.registry.byPackage kind package =
    (s.registry.all kind).filter fun t => ∃ f ∈ s.filesOf package, t ∈ f.symbols
  /-- Distinct packages share the declarations, if those of all files are among them. -/
  shared : ∀ kind (packages : List String), packages.Nodup →
    (∀ f ∈ s.files, f.package ∈ packages) →
    (packages.flatMap fun p => s.registry.byPackage kind p).Perm (s.registry.all kind)
  files : ∀ package, s.registry.byPackage .file package = (s.filesOf package).map File.symbol
  /-- The messages at the top level are those that the files list, one after the other. -/
  messages : ∀ package, List.Forall₂ (fun t m => m.symbol = t ∧ s.message? t.fullName = some m)
    (s.registry.byPackage .message package true) ((s.filesOf package).flatMap (·.messages))
  enums : ∀ package, List.Forall₂ (fun t e => e.symbol = t ∧ s.enum? t.fullName = some e)
    (s.registry.byPackage .enum package true) ((s.filesOf package).flatMap (·.enums))
  /-- Of the other kinds, everything is at the top level. -/
  flat : ∀ kind, kind ≠ .message → kind ≠ .enum → ∀ package,
    s.registry.byPackage kind package true = s.registry.byPackage kind package

/-- Nodes of files are found by the names of their symbols. -/
theorem Faithful.forall₂_symbol (hs : s.Faithful) {β : Type} (N : Nodes β) {bs : List β}
    (h : ∀ b ∈ bs, ∃ f ∈ s.files, b ∈ N.nodes f) :
    List.Forall₂ (fun t b => N.symbol b = t ∧
      (s.files.flatMap N.nodes).find? (fun c => (N.symbol c).fullName == t.fullName) = some b)
      (bs.map N.symbol) bs := by
  rw [List.forall₂_map_left_iff]
  refine List.forall₂_same.mpr fun b hb => ⟨rfl, ?_⟩
  obtain ⟨f, hf, hb⟩ := h b hb
  exact hs.find?_node N hf hb

theorem packaged_of_made {scheme : ImportScheme} {generate : FileDescriptor → Bool}
    {files : List FileDescriptor} (hs : s.unlinked = made scheme generate files)
    (distinct : (files.flatMap FileDescriptor.keys).Nodup) : s.Packaged := by
  have faithful := faithful_of_made hs distinct
  have once := nodup_all_of_made hs distinct
  have owned (kind : DeclKind) (t : Symbol) (ht : t ∈ s.registry.all kind) :
      ∃ f ∈ s.files, t ∈ f.symbols := ((mem_all_of_made hs distinct).mp ht).1
  have package_eq (f : File) (hf : f ∈ s.files) (t : Symbol) (ht : t ∈ f.symbols) :
      t.origin.package = f.package := congrArg Origin.package (faithful.origin f hf t ht)
  constructor
  · exact once
  · intro kind t ht
    obtain ⟨f, hf, htf⟩ := owned kind t ht
    exact ⟨f, ⟨hf, htf⟩, fun g ⟨hg, htg⟩ => faithful.eq_of_mem_symbols hf hg htf htg⟩
  · intro kind package
    rw [Registry.byPackage_eq_filter]
    refine List.filter_congr fun t ht => decide_eq_decide.mpr ?_
    constructor
    · intro same
      obtain ⟨f, hf, htf⟩ := owned kind t ht
      exact ⟨f, mem_filesOf.mpr ⟨hf, (package_eq f hf t htf).symm.trans same⟩, htf⟩
    · rintro ⟨f, hf, htf⟩
      obtain ⟨hf, same⟩ := mem_filesOf.mp hf
      exact (package_eq f hf t htf).trans same
  · intro kind packages hpackages covered
    simp only [Registry.byPackage_eq_filter]
    refine flatMap_filter_perm (once kind) hpackages fun t ht => ?_
    obtain ⟨f, hf, htf⟩ := owned kind t ht
    exact package_eq f hf t htf ▸ covered f hf
  · exact byPackage_files_of_made hs
  · intro package
    rw [byPackage_messages_of_made hs]
    refine faithful.forall₂_symbol Nodes.messages fun m hm => ?_
    obtain ⟨f, hf, hm⟩ := List.mem_flatMap.mp hm
    have own : m ∈ f.ownMessages := List.mem_of_mem_filter hm
    exact ⟨f, (mem_filesOf.mp hf).1, File.mem_allMessages_of_mem own m m.mem_all_self⟩
  · intro package
    rw [byPackage_enums_of_made hs]
    refine faithful.forall₂_symbol Nodes.enums fun e he => ?_
    obtain ⟨f, hf, he⟩ := List.mem_flatMap.mp he
    exact ⟨f, (mem_filesOf.mp hf).1, List.mem_append_left _ (List.mem_of_mem_filter he)⟩
  · intro kind hm he package
    refine List.filter_congr fun t ht => ?_
    have kind_eq := ((mem_all_of_made hs distinct).mp ht).2
    simp [Symbol.isIn, Symbol.isNestedType, kind_eq, hm, he]

/-- The packages of a registry agree with the files.  The declarations of a package are those in its
files, in the order of their registration, and each is in one package.  The messages and the enums
of a package that are not inside messages are those that its files list, file by file. -/
theorem packages_agree {scheme : ImportScheme} {files : List FileDescriptor} {wanted : List String}
    (h : ofFiles scheme files wanted = .ok s) : s.Packaged := by
  obtain ⟨coherent, -⟩ := (ofFiles_eq_ok_iff scheme).mp h
  exact packaged_of_made (unlinked_of_ofFiles h) coherent.distinct

/-- Two files of one package, with a file of another package between them.  The first has enums and
messages inside messages, one of them the entry of a map. -/
def splitFiles : List FileDescriptor := [
  { name := "order.proto", package := "shop"
    messages := [
      { name := "Order"
        fields := [
          { name := "totals", number := 1, label := some 3, kind := some .message
            typeName := ".shop.Order.TotalsEntry" }]
        enums := [{ name := "State" }]
        nested := [
          { name := "TotalsEntry", isMapEntry := true
            fields := [
              { name := "key", number := 1, label := some 1, kind := some .string },
              { name := "value", number := 2, label := some 1, kind := some .message
                typeName := ".shop.Total" }] },
          { name := "Line" }] },
      { name := "Label" }]
    enums := [{ name := "Currency" }]
    services := [{ name := "Shop" }] },
  { name := "bill.proto", package := "billing"
    messages := [{ name := "Bill", enums := [{ name := "State" }] }] },
  { name := "total.proto", package := "shop"
    messages := [{ name := "Total", nested := [{ name := "Tax" }] }]
    enums := [{ name := "Unit" }] }]

theorem packages_agree_splitFiles :
    ∃ s, ofFiles .bundled splitFiles [] = .ok s ∧ s.Packaged ∧
      (s.registry.byPackage .message "shop").map (·.fullName) = ["shop.Order",
        "shop.Order.TotalsEntry", "shop.Order.Line", "shop.Label", "shop.Total", "shop.Total.Tax"] ∧
      (s.registry.byPackage .message "shop" true).map (·.fullName) =
        ["shop.Order", "shop.Label", "shop.Total"] ∧
      (s.registry.byPackage .enum "shop").map (·.fullName) =
        ["shop.Order.State", "shop.Currency", "shop.Unit"] ∧
      (s.registry.byPackage .enum "shop" true).map (·.fullName) =
        ["shop.Currency", "shop.Unit"] := by
  obtain ⟨s, hs⟩ : ∃ s, ofFiles .bundled splitFiles [] = .ok s :=
    exists_ofFiles_of_isOk (by decide +kernel)
  have names (kind : DeclKind) (topLevelOnly : Bool) :
      (ofFiles .bundled splitFiles []).map (fun s =>
        (s.registry.byPackage kind "shop" topLevelOnly).map (·.fullName)) =
      .ok ((s.registry.byPackage kind "shop" topLevelOnly).map (·.fullName)) := by
    rw [hs]
    rfl
  refine ⟨s, hs, packages_agree hs, ?_, ?_, ?_, ?_⟩ <;>
    refine Except.ok.inj ((names _ _).symm.trans ?_) <;> decide +kernel

end Schema

end Protolink

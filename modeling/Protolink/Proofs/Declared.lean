import Mathlib.Tactic.MkIffOfInductiveProp
import Protolink.Link
import Protolink.Proofs.Registry

/-!
# What files declare and refer to

The declarations of a descriptor, at every depth, as lists: messages with their full names, the
keys that are registered and the symbols they are registered with, and the fields and methods that
refer to others.  The conditions under which files make a schema are stated over these lists, with
no reference to how a schema is made.
-/

namespace Protolink

/-! ## Descriptors that lack nothing -/

/-- A field or an extension that has a name, a number, a kind and a label. -/
@[mk_iff]
structure FieldDescriptor.Sound (d : FieldDescriptor) : Prop where
  name : d.name ≠ ""
  number : 0 < d.number
  kind : d.kind.isSome
  label : d.label = some 1 ∨ d.label = some 2 ∨ d.label = some 3

@[mk_iff]
structure EnumDescriptor.Sound (d : EnumDescriptor) : Prop where
  name : d.name ≠ ""
  values : ∀ v ∈ d.values, v.name ≠ ""

@[mk_iff]
structure ServiceDescriptor.Sound (d : ServiceDescriptor) : Prop where
  name : d.name ≠ ""
  methods : ∀ m ∈ d.methods, m.name ≠ ""

/-- A message whose own declarations lack nothing, and whose fields are in oneofs that it has. -/
@[mk_iff]
structure MessageDecl.Sound (d : MessageDecl) : Prop where
  name : d.name ≠ ""
  oneofs : ∀ o ∈ d.oneofs, o.name ≠ ""
  fields : ∀ f ∈ d.fields, (∀ i ∈ f.oneofIndex, 0 ≤ i ∧ i < d.oneofs.length) ∧ f.Sound
  enums : ∀ e ∈ d.enums, e.Sound
  extensions : ∀ x ∈ d.extensions, x.Sound

/-! ## Messages and keys -/

namespace MessageDescriptor

mutual

/-- A message and all messages inside it, parents first, with their full names. -/
def all (scope : String) : MessageDescriptor → List (String × MessageDecl)
  | ⟨d, nested⟩ => (Name.join scope d.name, d) :: allOf (Name.join scope d.name) nested

/-- All messages of several, parents first, with their full names. -/
def allOf (scope : String) : List MessageDescriptor → List (String × MessageDecl)
  | [] => []
  | m :: ms => m.all scope ++ allOf scope ms

end

theorem allOf_eq_flatMap (scope : String) (ms : List MessageDescriptor) :
    allOf scope ms = ms.flatMap (all scope) := by
  induction ms with
  | nil => rfl
  | cons m ms ih => rw [allOf, ih, List.flatMap_cons]

/-- What holds of all messages at and inside a message holds of the message itself and inside. -/
theorem forall_mem_all_iff {P : String × MessageDecl → Prop} {scope : String}
    {m : MessageDescriptor} :
    (∀ p ∈ m.all scope, P p) ↔ P (Name.join scope m.name, m.toMessageDecl) ∧
      ∀ p ∈ allOf (Name.join scope m.name) m.nested, P p := by
  cases m
  rw [all, List.forall_mem_cons]

end MessageDescriptor

/-- The keys of a message's own enums and extensions. -/
def MessageDecl.keys (fullName : String) (d : MessageDecl) : List (DeclKind × String) :=
  d.enums.map (fun e => (.enum, Name.join fullName e.name))
    ++ d.extensions.map fun x => (.extension, Name.join fullName x.name)

namespace MessageDescriptor

mutual

/-- The keys of a message and of what it declares at any depth, in the order of registration. -/
def keys (scope : String) : MessageDescriptor → List (DeclKind × String)
  | ⟨d, nested⟩ =>
    (.message, Name.join scope d.name) ::
      (keysOf (Name.join scope d.name) nested ++ d.keys (Name.join scope d.name))

/-- The keys of several messages. -/
def keysOf (scope : String) : List MessageDescriptor → List (DeclKind × String)
  | [] => []
  | m :: ms => m.keys scope ++ keysOf scope ms

end

mutual

theorem kind_ne_file_of_mem_keys (scope : String) : ∀ m : MessageDescriptor,
    ∀ k ∈ m.keys scope, k.1 ≠ .file
  | ⟨d, nested⟩ => by
    intro k hk
    simp only [keys, MessageDecl.keys, List.mem_cons, List.mem_append, List.mem_map] at hk
    obtain rfl | hk | ⟨e, -, rfl⟩ | ⟨x, -, rfl⟩ := hk
    · exact nofun
    · exact kind_ne_file_of_mem_keysOf _ nested k hk
    · exact nofun
    · exact nofun

theorem kind_ne_file_of_mem_keysOf (scope : String) : ∀ ms : List MessageDescriptor,
    ∀ k ∈ keysOf scope ms, k.1 ≠ .file
  | [] => nofun
  | m :: ms => by
    rw [keysOf, List.forall_mem_append]
    exact ⟨kind_ne_file_of_mem_keys scope m, kind_ne_file_of_mem_keysOf scope ms⟩

end

end MessageDescriptor

namespace FileDescriptor

/-- All messages of a file at any depth, with their full names. -/
def allMessages (d : FileDescriptor) : List (String × MessageDecl) :=
  MessageDescriptor.allOf d.package d.messages

/-- The kind and the full name of all that a file declares in a table: itself, and its messages,
enums, services and extensions at any depth. -/
def keys (d : FileDescriptor) : List (DeclKind × String) :=
  (.file, d.name) :: (MessageDescriptor.keysOf d.package d.messages
    ++ d.enums.map (fun e => (.enum, Name.join d.package e.name))
    ++ d.services.map (fun s => (.service, Name.join d.package s.name))
    ++ d.extensions.map fun x => (.extension, Name.join d.package x.name))

/-- Only the file itself has a key of its kind. -/
theorem file_mem_keys_iff {d : FileDescriptor} {n : String} : (.file, n) ∈ d.keys ↔ n = d.name := by
  have messages : (.file, n) ∉ MessageDescriptor.keysOf d.package d.messages :=
    fun h => MessageDescriptor.kind_ne_file_of_mem_keysOf _ _ _ h rfl
  simp [keys, messages]

theorem file_mem_flatMap_keys_iff {ds : List FileDescriptor} {n : String} :
    (.file, n) ∈ ds.flatMap keys ↔ n ∈ ds.map (·.name) := by
  simp only [List.mem_flatMap, file_mem_keys_iff, List.mem_map, eq_comm]

/-- A file in which no declaration lacks anything. -/
@[mk_iff]
structure Sound (d : FileDescriptor) : Prop where
  name : d.name ≠ ""
  messages : ∀ m ∈ d.allMessages, m.2.Sound
  enums : ∀ e ∈ d.enums, e.Sound
  services : ∀ s ∈ d.services, s.Sound
  extensions : ∀ x ∈ d.extensions, x.Sound

/-- The fields and extensions of a file at any depth, with the scopes that they are in. -/
def allFields (d : FileDescriptor) : List (String × FieldDescriptor) :=
  d.allMessages.flatMap (fun m => (m.2.fields ++ m.2.extensions).map (m.1, ·))
    ++ d.extensions.map (d.package, ·)

theorem Sound.allFields {d : FileDescriptor} (h : d.Sound) : ∀ f ∈ d.allFields, f.2.Sound := by
  simp only [FileDescriptor.allFields, List.forall_mem_append, List.forall_mem_flatMap,
    List.forall_mem_map]
  refine ⟨fun m hm => ⟨fun f hf => ?_, fun x hx => ?_⟩, fun x hx => ?_⟩
  · exact ((h.messages m hm).fields f hf).2
  · exact (h.messages m hm).extensions x hx
  · exact h.extensions x hx

/-- The methods of a file, with the full names of their services. -/
def allMethods (d : FileDescriptor) : List (String × MethodDescriptor) :=
  d.services.flatMap fun s => s.methods.map (Name.join d.package s.name, ·)

end FileDescriptor

/-! ## References -/

/-- A type name, used in a scope, may stand for one of the given keys. -/
def Denotes (keys : List (DeclKind × String)) (kind : DeclKind) (scope typeName : String) : Prop :=
  ∃ c ∈ Name.candidates scope typeName, (kind, c) ∈ keys

/-- A field whose references mean something: its type if its kind has one, and the message that it
extends if it says so. -/
@[mk_iff]
structure FieldDescriptor.Denotes (keys : List (DeclKind × String)) (scope : String)
    (d : FieldDescriptor) : Prop where
  target : ∀ kind, d.kind.bind FieldKind.targetKind? = some kind →
    d.typeName ≠ "" ∧ Protolink.Denotes keys kind scope d.typeName
  extendee : ∀ e ∈ d.extendee, e ≠ "" → Protolink.Denotes keys .message scope e

/-- A method whose types both mean something. -/
@[mk_iff]
structure MethodDescriptor.Denotes (keys : List (DeclKind × String)) (scope : String)
    (d : MethodDescriptor) : Prop where
  input : d.input ≠ "" ∧ Protolink.Denotes keys .message scope d.input
  output : d.output ≠ "" ∧ Protolink.Denotes keys .message scope d.output

/-- When files make a schema of which some are wanted: nothing in them is missing or declared twice,
and all that they refer to is declared by one of them, in whatever order they come. -/
structure Coherent (files : List FileDescriptor) (wanted : List String) : Prop where
  sound : ∀ d ∈ files, d.Sound
  distinct : (files.flatMap FileDescriptor.keys).Nodup
  dependencies : ∀ d ∈ files, ∀ n ∈ d.dependencies, n ∈ files.map (·.name)
  fields : ∀ d ∈ files, ∀ f ∈ d.allFields, f.2.Denotes (files.flatMap FileDescriptor.keys) f.1
  methods : ∀ d ∈ files, ∀ m ∈ d.allMethods, m.2.Denotes (files.flatMap FileDescriptor.keys) m.1
  wanted : ∀ n ∈ wanted, n ∈ files.map (·.name)

/-! ## Symbols -/

/-- The symbol of a declaration in the message `parent`, or at the top level of its file. -/
def Origin.symbol (o : Origin) (kind : DeclKind) (parent : Option String) (name : String) :
    Symbol :=
  ⟨kind, Name.join (parent.getD o.package) name, o, parent⟩

@[simp] theorem Origin.key_symbol (o : Origin) (kind : DeclKind) (parent : Option String)
    (name : String) :
    (o.symbol kind parent name).key = (kind, Name.join (parent.getD o.package) name) := rfl

/-- The symbols of a message's own enums and extensions. -/
def MessageDecl.symbols (o : Origin) (fullName : String) (d : MessageDecl) : List Symbol :=
  d.enums.map (fun e => o.symbol .enum (some fullName) e.name)
    ++ d.extensions.map fun x => o.symbol .extension (some fullName) x.name

namespace MessageDescriptor

mutual

/-- The symbols of what is declared inside a message, in the order of registration. -/
def innerSymbols (o : Origin) (fullName : String) : MessageDescriptor → List Symbol
  | ⟨d, nested⟩ => symbolsOf o (some fullName) nested ++ d.symbols o fullName

/-- The symbols of several messages and of what is declared inside them. -/
def symbolsOf (o : Origin) (parent : Option String) : List MessageDescriptor → List Symbol
  | [] => []
  | m :: ms =>
    o.symbol .message parent m.name ::
      innerSymbols o (Name.join (parent.getD o.package) m.name) m ++ symbolsOf o parent ms

end

end MessageDescriptor

theorem MessageDescriptor.symbolsOf_eq_flatMap (o : Origin) (parent : Option String)
    (ms : List MessageDescriptor) :
    symbolsOf o parent ms = ms.flatMap fun m => o.symbol .message parent m.name ::
      m.innerSymbols o (Name.join (parent.getD o.package) m.name) := by
  induction ms with
  | nil => rfl
  | cons m ms ih => rw [symbolsOf, ih, List.flatMap_cons]

/-- The symbols of a file and of what it declares at any depth, in the order of registration. -/
def FileDescriptor.symbols (o : Origin) (d : FileDescriptor) : List Symbol :=
  ⟨.file, o.name, o, none⟩ :: (MessageDescriptor.symbolsOf o none d.messages
    ++ d.enums.map (fun e => o.symbol .enum none e.name)
    ++ d.services.map (fun s => o.symbol .service none s.name)
    ++ d.extensions.map fun x => o.symbol .extension none x.name)

namespace MessageDescriptor

mutual

/-- What is declared inside a message is registered under its keys. -/
theorem map_key_innerSymbols (o : Origin) (fullName : String) : ∀ m : MessageDescriptor,
    (m.innerSymbols o fullName).map Symbol.key =
      keysOf fullName m.nested ++ m.toMessageDecl.keys fullName
  | ⟨d, nested⟩ => by
    simp only [innerSymbols, List.map_append, map_key_symbolsOf o _ nested, Option.getD_some]
    simp [MessageDecl.symbols, MessageDecl.keys, Function.comp_def]

theorem map_key_symbolsOf (o : Origin) (parent : Option String) : ∀ ms : List MessageDescriptor,
    (symbolsOf o parent ms).map Symbol.key = keysOf (parent.getD o.package) ms
  | [] => rfl
  | ⟨d, nested⟩ :: ms => by
    simp only [symbolsOf, keysOf, keys, List.map_append, List.map_cons, Origin.key_symbol,
      map_key_innerSymbols o _ ⟨d, nested⟩, map_key_symbolsOf o parent ms]

end

end MessageDescriptor

namespace MessageDescriptor

mutual

theorem origin_of_mem_innerSymbols (o : Origin) (fullName : String) : ∀ m : MessageDescriptor,
    ∀ t ∈ m.innerSymbols o fullName, t.origin = o
  | ⟨d, nested⟩ => by
    intro t ht
    simp only [innerSymbols, MessageDecl.symbols, List.mem_append, List.mem_map] at ht
    obtain ht | ⟨e, -, rfl⟩ | ⟨x, -, rfl⟩ := ht
    · exact origin_of_mem_symbolsOf o _ nested t ht
    · rfl
    · rfl

theorem origin_of_mem_symbolsOf (o : Origin) (parent : Option String) :
    ∀ ms : List MessageDescriptor, ∀ t ∈ symbolsOf o parent ms, t.origin = o
  | [] => nofun
  | m :: ms => by
    rw [symbolsOf, List.forall_mem_append, List.forall_mem_cons]
    exact ⟨⟨rfl, origin_of_mem_innerSymbols o _ m⟩, origin_of_mem_symbolsOf o parent ms⟩

end

end MessageDescriptor

/-- Everything in a file says that it comes from there. -/
theorem FileDescriptor.origin_of_mem_symbols {o : Origin} {d : FileDescriptor} {t : Symbol}
    (ht : t ∈ d.symbols o) : t.origin = o := by
  simp only [symbols, List.mem_cons, List.mem_append, List.mem_map] at ht
  obtain rfl | ((ht | ⟨e, -, rfl⟩) | ⟨s, -, rfl⟩) | ⟨x, -, rfl⟩ := ht
  · rfl
  · exact MessageDescriptor.origin_of_mem_symbolsOf o none d.messages t ht
  · rfl
  · rfl
  · rfl

/-- Everything in a file is registered under the keys of the file. -/
theorem FileDescriptor.map_key_symbols {o : Origin} {d : FileDescriptor} (hn : o.name = d.name)
    (hp : o.package = d.package) : (d.symbols o).map Symbol.key = d.keys := by
  simp [symbols, keys, MessageDescriptor.map_key_symbolsOf, Function.comp_def, Symbol.key,
    Origin.symbol, hn, hp]

end Protolink

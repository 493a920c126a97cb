import Protolink.Proofs.Ownership

/-!
# What declarations are called

The full name of a message or an enum lists the package, the messages around it and its own name;
its identifier lists the same without the package, and so each of them is found again from the
other.  Names may hold dots and packages may be empty or look like names, so that a full name alone
does not say where its parts end; here they are taken from the tree of nodes,
`File.messagesWithin`, in which each message stands with the names of the messages around it.

As identifiers lead back to full names, and full names are registered once, no two messages and no
two enums of a file have the same identifier.

Main statement: `Schema.names_round_trip`.
-/

namespace Protolink

/-! ## Dotted lists -/

namespace Name

/-- The dotted list of a scope, unless it is empty, and of some names. -/
def dotted (scope : String) (names : List String) : String :=
  ".".intercalate ((if scope = "" then [] else [scope]) ++ names)

variable (scope n : String) {names : List String}

theorem dotted_nil (names : List String) : dotted "" names = ".".intercalate names := rfl

theorem join_dotted (h : names ≠ []) : join scope (dotted "" names) = dotted scope names := by
  unfold join dotted
  split
  · rfl
  · exact (String.intercalate_cons_of_ne_nil h).symm

theorem dotted_singleton : dotted scope [n] = join scope n := by
  rw [← join_dotted scope (List.cons_ne_nil n []), dotted_nil, String.intercalate_singleton]

theorem dotted_concat (h : names ≠ []) :
    dotted scope (names ++ [n]) = dotted scope names ++ "." ++ n := by
  unfold dotted
  rw [← List.append_assoc, String.intercalate_append_of_ne_nil _ (List.cons_ne_nil n []),
    String.intercalate_singleton]
  exact List.append_ne_nil_of_right_ne_nil _ h

variable {scope n}

theorem join_ne_empty (h : n ≠ "") : join scope n ≠ "" := by
  unfold join
  split
  · exact h
  · intro heq
    exact h (String.append_eq_empty_iff.mp heq).2

theorem join_of_ne_empty (h : scope ≠ "") : join scope n = scope ++ "." ++ n := if_neg h

/-- A package is taken off exactly where it was put on. -/
theorem relative_join (package n : String) : relative (join package n) package = n := by
  unfold relative join
  by_cases h : package = ""
  · simp only [h, ne_eq, not_true_eq_false, false_and, if_false, if_true]
  · have text : (package ++ "." ++ n).toList = (package.toList ++ ['.']) ++ n.toList := by
      rw [String.toList_append, String.toList_append]
      rfl
    have front : (package.toList ++ ['.']).isPrefixOf (package ++ "." ++ n).toList = true := by
      rw [text, List.isPrefixOf_iff_prefix]
      exact List.prefix_append _ _
    simp only [h, if_false, ne_eq, not_false_eq_true, true_and, front, if_true]
    rw [text, List.drop_left, String.ofList_toList]

end Name

/-! ## Nodes with the messages around them -/

namespace Message

mutual

/-- A message and all messages inside it, each with the names of those around it, outermost
first. -/
def within (outer : List String) : Message → List (List String × Message)
  | ⟨body, nested⟩ => (outer, ⟨body, nested⟩) :: withinOf (outer ++ [body.name]) nested

def withinOf (outer : List String) : List Message → List (List String × Message)
  | [] => []
  | m :: ms => m.within outer ++ withinOf outer ms

end

mutual

theorem map_snd_within (outer : List String) : ∀ m : Message,
    (m.within outer).map Prod.snd = m.all
  | ⟨body, nested⟩ => by
    rw [within, all, List.map_cons, map_snd_withinOf _ nested]

theorem map_snd_withinOf (outer : List String) : ∀ ms : List Message,
    (withinOf outer ms).map Prod.snd = allOf ms
  | [] => rfl
  | m :: ms => by
    rw [withinOf, allOf, List.map_append, map_snd_within outer m, map_snd_withinOf outer ms]

end

mutual

theorem within_unlinked (outer : List String) : ∀ m : Message,
    m.unlinked.within outer = (m.within outer).map fun p => (p.1, p.2.unlinked)
  | ⟨body, nested⟩ => by
    rw [within, List.map_cons, unlinked_mk, within]
    exact congrArg _ (withinOf_unlinked _ nested)

theorem withinOf_unlinked (outer : List String) : ∀ ms : List Message,
    withinOf outer (ms.map unlinked) = (withinOf outer ms).map fun p => (p.1, p.2.unlinked)
  | [] => rfl
  | m :: ms => by
    rw [List.map_cons, withinOf, withinOf, List.map_append, within_unlinked outer m,
      withinOf_unlinked outer ms]

end

end Message

/-- The messages of a file at any depth, each with the names of the messages around it. -/
def File.messagesWithin (f : File) : List (List String × Message) :=
  Message.withinOf [] f.ownMessages

theorem File.map_snd_messagesWithin (f : File) : f.messagesWithin.map Prod.snd = f.allMessages :=
  Message.map_snd_withinOf [] f.ownMessages

/-! ## Names of nodes -/

/-- A message or an enum called `name` inside of `outer`: its full name lists the package, `outer`
and `name`, its identifier lists `outer` and `name`, and the package put before it gives the full
name. -/
structure Symbol.Called (s : Symbol) (o : Origin) (outer : List String) (name : String) :
    Prop where
  fullName : s.fullName = Name.dotted o.package (outer ++ [name])
  ident : s.ident = ⟨o.path, Name.dotted "" (outer ++ [name])⟩
  rejoined : Name.join o.package s.ident.name = s.fullName

structure EnumType.WellNamed (o : Origin) (outer : List String) (e : EnumType) : Prop where
  called : e.symbol.Called o outer e.name
  values : ∀ v ∈ e.values, v.fullName = Name.dotted o.package [v.name]

structure MessageBody.WellNamed (o : Origin) (outer : List String) (b : MessageBody) : Prop where
  called : b.symbol.Called o outer b.name
  fields : ∀ f ∈ b.fields, f.fullName = b.fullName ++ "." ++ f.name
  oneofs : ∀ u ∈ b.oneofs, u.fullName = b.fullName ++ "." ++ u.name
  extensions : ∀ x ∈ b.extensions, x.fullName = b.fullName ++ "." ++ x.name
  enums : ∀ e ∈ b.ownEnums, e.WellNamed o (outer ++ [b.name])

structure Service.WellNamed (package : String) (s : Service) : Prop where
  fullName : s.fullName = Name.dotted package [s.name]
  methods : ∀ m ∈ s.methods, m.fullName = s.fullName ++ "." ++ m.name

/-- Everything in the file is called by where it stands. -/
structure File.WellNamed (f : File) : Prop where
  messages : ∀ p ∈ f.messagesWithin, p.2.WellNamed f.origin p.1
  enums : ∀ e ∈ f.ownEnums, e.WellNamed f.origin []
  services : ∀ s ∈ f.ownServices, s.WellNamed f.package
  extensions : ∀ x ∈ f.extensions, x.fullName = Name.dotted f.package [x.name]

/-- A file generated where the scheme says, in which names and identifiers lead to one another. -/
structure File.RoundTrips (scheme : ImportScheme) (f : File) : Prop where
  path : f.origin.path = scheme f.name f.package
  named : f.WellNamed
  messages : (f.allMessages.map fun m => m.symbol.ident).Nodup
  enums : (f.allEnums.map fun e => e.symbol.ident).Nodup

/-- The full name of a declaration and where it is from determine what it is called. -/
theorem Symbol.called_of_fullName {s : Symbol} {outer : List String} {name : String}
    (h : s.fullName = Name.dotted s.origin.package (outer ++ [name])) :
    s.Called s.origin outer name := by
  have names : outer ++ [name] ≠ [] := List.append_ne_nil_of_right_ne_nil _ (List.cons_ne_nil _ _)
  have ident : s.ident = ⟨s.origin.path, Name.dotted "" (outer ++ [name])⟩ := by
    rw [ident, h, ← Name.join_dotted _ names, Name.relative_join]
    rfl
  refine ⟨h, ident, ?_⟩
  rw [ident, h]
  exact Name.join_dotted _ names

/-! ## Nodes that are made are called by where they stand -/

namespace Source

variable (src : Source)

theorem bodyNode_name (parent : Option String) (path : List Int) (d : MessageDecl) :
    (src.bodyNode parent path d).name = d.name :=
  MessageBody.foldl_addField_frame (g := MessageBody.name) (fun _ _ => rfl) _ _

/-- The names of the messages around whatever has the parent. -/
def Encloses (parent : Option String) (outer : List String) : Prop :=
  ∀ n, Name.join (src.scope parent) n = Name.dotted src.origin.package (outer ++ [n])

theorem encloses_none : src.Encloses none [] :=
  fun n => (Name.dotted_singleton src.origin.package n).symm

variable {src} {parent : Option String} {outer : List String}

theorem Encloses.inside (h : src.Encloses parent outer) {name : String} (hname : name ≠ "") :
    src.Encloses (some (Name.join (src.scope parent) name)) (outer ++ [name]) := by
  intro n
  have names : outer ++ [name] ≠ [] := List.append_ne_nil_of_right_ne_nil _ (List.cons_ne_nil _ _)
  rw [scope, Option.getD_some, Name.join_of_ne_empty (Name.join_ne_empty hname), h name,
    Name.dotted_concat _ _ names]

theorem wellNamed_enumNode (h : src.Encloses parent outer) (path : List Int) (d : EnumDescriptor) :
    (src.enumNode parent path d).WellNamed src.origin outer := by
  refine ⟨Symbol.called_of_fullName (h d.name), ?_⟩
  refine List.forall_mem_map.mpr fun v _ => ?_
  exact (Name.dotted_singleton src.origin.package v.1.name).symm

theorem wellNamed_bodyNode (h : src.Encloses parent outer) (path : List Int) {d : MessageDecl}
    (hname : d.name ≠ "") : (src.bodyNode parent path d).WellNamed src.origin outer := by
  have inside (n : String) : Name.join (Name.join (src.scope parent) d.name) n =
      (src.bodyNode parent path d).fullName ++ "." ++ n := by
    rw [bodyNode_fullName, Name.join_of_ne_empty (Name.join_ne_empty hname)]
  constructor
  · rw [symbol_bodyNode, bodyNode_name]
    exact Symbol.called_of_fullName (h d.name)
  · rw [bodyNode_fields, List.forall_mem_map]
    exact fun f _ => inside f.1.name
  · -- A oneof that has members is called as it was without them.
    have names := src.map_oneofs_bodyNode (g := fun u => (u.name, u.fullName)) (fun _ _ => rfl)
      parent path d
    intro u hu
    have mem := List.mem_map_of_mem (f := fun u : Oneof => (u.name, u.fullName)) hu
    rw [names] at mem
    obtain ⟨o, -, ho⟩ := List.mem_map.mp mem
    obtain ⟨hn, hf⟩ := Prod.mk.inj ho
    rw [← hn, ← hf]
    exact inside o.1.name
  · rw [bodyNode_extensions, List.forall_mem_map]
    exact fun x _ => inside x.1.name
  · rw [bodyNode_name]
    refine List.forall_mem_map.mpr fun e _ => ?_
    exact wellNamed_enumNode (h.inside hname) _ e.1

mutual

theorem wellNamed_messageNode {parent : Option String} {outer : List String}
    (h : src.Encloses parent outer) (path : List Int) :
    ∀ d : MessageDescriptor, (∀ p ∈ d.all (src.scope parent), p.2.name ≠ "") →
    ∀ p ∈ (src.messageNode parent path d).within outer, p.2.WellNamed src.origin p.1
  | ⟨d, nested⟩, hd => by
    rw [MessageDescriptor.all, List.forall_mem_cons] at hd
    rw [messageNode, Message.within, List.forall_mem_cons, bodyNode_name]
    exact ⟨wellNamed_bodyNode h path hd.1,
      wellNamed_nestedNodes (h.inside hd.1) path 0 nested hd.2⟩

theorem wellNamed_nestedNodes {message : String} {outer : List String}
    (h : src.Encloses (some message) outer) (path : List Int) (i : Nat) :
    ∀ ds : List MessageDescriptor, (∀ p ∈ MessageDescriptor.allOf message ds, p.2.name ≠ "") →
    ∀ p ∈ Message.withinOf outer (src.nestedNodes message path i ds),
      p.2.WellNamed src.origin p.1
  | [], _ => List.forall_mem_nil _
  | d :: ds, hd => by
    rw [MessageDescriptor.allOf, List.forall_mem_append] at hd
    rw [nestedNodes, Message.withinOf, List.forall_mem_append]
    exact ⟨wellNamed_messageNode h _ d hd.1, wellNamed_nestedNodes h path (i + 1) ds hd.2⟩

end

end Source

theorem FileDescriptor.wellNamed_node {d : FileDescriptor} (h : d.Sound) (scheme : ImportScheme)
    (generate : Bool) : (d.node scheme generate).WellNamed := by
  let src := d.source scheme
  constructor
  · have messages (ms : List MessageDescriptor) (i : Nat)
        (hms : ∀ p ∈ MessageDescriptor.allOf d.package ms, p.2.name ≠ "") :
        ∀ p ∈ Message.withinOf [] ((ms.zipIdx i).map fun m =>
            src.messageNode none [Tag.fileMessages, (m.2 : Int)] m.1),
          p.2.WellNamed src.origin p.1 := by
      induction ms generalizing i with
      | nil => exact List.forall_mem_nil _
      | cons m ms ih =>
        rw [MessageDescriptor.allOf, List.forall_mem_append] at hms
        rw [List.zipIdx_cons, List.map_cons, Message.withinOf, List.forall_mem_append]
        exact ⟨Source.wellNamed_messageNode src.encloses_none _ m hms.1, ih (i + 1) hms.2⟩
    exact messages d.messages 0 fun p hp => (h.messages p hp).name
  · refine List.forall_mem_map.mpr fun e _ => ?_
    exact Source.wellNamed_enumNode src.encloses_none _ e.1
  · refine List.forall_mem_map.mpr fun v _ => ⟨?_, List.forall_mem_map.mpr fun m _ => rfl⟩
    exact (Name.dotted_singleton d.package v.1.name).symm
  · refine List.forall_mem_map.mpr fun x _ => ?_
    exact (Name.dotted_singleton d.package x.1.name).symm

/-! ## Links do not change names -/

theorem MessageBody.wellNamed_of_unlinked {o : Origin} {outer : List String} {b : MessageBody}
    (h : b.unlinked.WellNamed o outer) : b.WellNamed o outer := by
  obtain ⟨called, fields, oneofs, extensions, enums⟩ := h
  exact ⟨called, List.forall_mem_map.mp fields, oneofs, List.forall_mem_map.mp extensions, enums⟩

theorem File.wellNamed_of_unlinked {f : File} (h : f.unlinked.WellNamed) : f.WellNamed := by
  constructor
  · have messages : f.unlinked.messagesWithin =
        f.messagesWithin.map fun p => (p.1, p.2.unlinked) :=
      Message.withinOf_unlinked [] f.ownMessages
    have named := h.messages
    rw [messages, List.forall_mem_map] at named
    intro p hp
    have body := named p hp
    rw [Message.unlinked, Message.toMessageBody_map] at body
    exact MessageBody.wellNamed_of_unlinked body
  · exact h.enums
  · intro s hs
    obtain ⟨fullName, methods⟩ := h.services s.unlinked (List.mem_map_of_mem hs)
    exact ⟨fullName, List.forall_mem_map.mp methods⟩
  · exact List.forall_mem_map.mp h.extensions

/-! ## Identifiers lead back -/

namespace File

variable {f : File}

theorem WellNamed.rejoined_messages (h : f.WellNamed) :
    ∀ m ∈ f.allMessages, Name.join f.package m.symbol.ident.name = m.symbol.fullName := by
  rw [← f.map_snd_messagesWithin]
  exact List.forall_mem_map.mpr fun p hp => (h.messages p hp).called.rejoined

theorem WellNamed.rejoined_enums (h : f.WellNamed) :
    ∀ e ∈ f.allEnums, Name.join f.package e.symbol.ident.name = e.symbol.fullName := by
  refine List.forall_mem_append.mpr ⟨fun e he => (h.enums e he).called.rejoined, ?_⟩
  rw [← f.map_snd_messagesWithin, List.forall_mem_flatMap]
  refine List.forall_mem_map.mpr fun p hp e he => ?_
  exact ((h.messages p hp).enums e he).called.rejoined

end File

namespace Schema

variable {s : Schema}

/-- Nodes of one kind whose identifiers lead back to their full names have different
identifiers. -/
theorem Faithful.nodup_idents (hs : s.Faithful) {β : Type} (N : Nodes β) {f : File}
    (hf : f ∈ s.files) (h : ∀ b ∈ N.nodes f,
      Name.join f.package (N.symbol b).ident.name = (N.symbol b).fullName) :
    ((N.nodes f).map fun b => (N.symbol b).ident).Nodup := by
  have symbols : f.symbols.Sublist (s.files.flatMap File.symbols) :=
    List.sublist_flatten_of_mem (List.mem_map_of_mem hf)
  have keys := (((N.sublist f).trans symbols).map Symbol.key).nodup hs.distinct
  rw [List.map_map] at keys
  have rejoined : ((N.nodes f).map fun b => (N.symbol b).ident).map
      (fun i => (N.kind, Name.join f.package i.name)) =
        (N.nodes f).map (Symbol.key ∘ N.symbol) := by
    rw [List.map_map]
    exact List.map_congr_left fun b hb => Prod.ext (N.kind_symbol b).symm (h b hb)
  rw [← rejoined] at keys
  exact keys.of_map _

/-- Full names and identifiers lead to one another, wherever modules are generated and whatever
declarations are called. -/
theorem names_round_trip (scheme : ImportScheme) (files : List FileDescriptor)
    (wanted : List String) (s : Schema) (h : ofFiles scheme files wanted = .ok s) :
    ∀ f ∈ s.files, f.RoundTrips scheme := by
  obtain ⟨coherent, -⟩ := (ofFiles_eq_ok_iff scheme).mp h
  have faithful := faithful_of_ofFiles h
  intro f hf
  have mem : f.unlinked ∈ s.unlinked.files := List.mem_map_of_mem hf
  rw [unlinked_of_ofFiles h] at mem
  obtain ⟨d, hd, node⟩ := List.mem_map.mp mem
  have origin : f.origin = (d.source scheme).origin := congrArg File.origin node.symm
  have named : f.WellNamed :=
    File.wellNamed_of_unlinked (node ▸ d.wellNamed_node (coherent.sound d hd) scheme _)
  constructor
  · rw [File.name, File.package, origin]
    rfl
  · exact named
  · exact faithful.nodup_idents Nodes.messages hf named.rejoined_messages
  · exact faithful.nodup_idents Nodes.enums hf named.rejoined_enums

/-- A message called as the package, and in it one whose name has the package before a dot. -/
def echoFile : FileDescriptor where
  name := "echo.proto"
  package := "echo"
  messages := [
    { name := "echo"
      oneofs := [{ name := "echo" }]
      nested := [
        { name := "echo.Reply", enums := [{ name := "Mood", values := [{ name := "CALM" }] }] }] }]

theorem names_round_trip_echoFile : ∃ s, ofFiles .standard [echoFile] [] = .ok s ∧
    s.files.length = 1 ∧ ∀ f ∈ s.files, f.RoundTrips .standard := by
  have one : (ofFiles .standard [echoFile] []).toOption.map (·.files.length) = some 1 := by
    decide +kernel
  cases hs : ofFiles .standard [echoFile] [] with
  | error e =>
    rw [hs] at one
    exact absurd one nofun
  | ok s =>
    rw [hs] at one
    exact ⟨s, rfl, Option.some.inj one, names_round_trip .standard [echoFile] [] s hs⟩

example : (ofFiles .standard [echoFile] []).map (fun s => s.files.map fun f =>
    (f.allMessages.map (·.symbol.ident.name),
      f.allEnums.map fun e => (e.fullName, e.values.map (·.fullName)))) =
    .ok [(["echo", "echo.echo.Reply"], [("echo.echo.echo.Reply.Mood", ["echo.CALM"])])] := by
  decide +kernel

end Schema

end Protolink

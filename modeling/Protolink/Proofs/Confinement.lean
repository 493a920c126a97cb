import Protolink.Proofs.Sessions

/-!
# What a link touches

A link of a file that was declared and never linked writes into this file and into nothing else in
the schema, and what it writes there are references, imports and the lists of nested messages.  If
it goes through, it has written all of them: every field, extension and method that the file
declares at any depth is set, and every message has given up just its map entries.
-/

namespace Protolink

/-! ## Nodes whose references are set -/

/-- All references of the field are set. -/
structure Field.IsSet (f : Field) : Prop where
  enumType : f.enumType.isSet = true
  message : f.message.isSet = true
  extendee : f.extendee.isSet = true

/-- Both types of the method are set. -/
structure Method.IsSet (m : Method) : Prop where
  input : m.input.isSet = true
  output : m.output.isSet = true

theorem Field.isSet_linked (r : Registry Symbol) (f : Field) : (f.linked r).IsSet := ⟨rfl, rfl, rfl⟩

/-- A method is set as far as its types mean something. -/
theorem Method.isSet_linked {r : Registry Symbol} {scope : String} {m : Method}
    (h : m.Linkable r scope) : (m.linked r scope).IsSet := ⟨h.input.2, h.output.2⟩

/-! ## What is listed -/

/-- What a message lists, once its references are open again, is told by what it listed before it
was linked. -/
theorem Message.messages_of_unlinked {m n : Message} (h : n.unlinked = m) :
    n.messages.map unlinked = m.messages.filter fun k => !(n.hidesEntries && k.isMapEntry) := by
  subst h
  obtain ⟨body, nested⟩ := n
  rw [unlinked_mk, messages, messages, List.filter_filter, List.filter_map]
  refine congrArg _ (List.filter_congr fun k _ => ?_)
  rw [Function.comp_apply, unlinked, toMessageBody_map]
  simp [MessageBody.lists, MessageBody.unlinked, Bool.and_comm]

namespace File

variable {f g : File}

/-- The messages of a file that was linked are those that it had before. -/
theorem forall₂_allMessages_of_unlinked (h : g.unlinked = f) :
    List.Forall₂ (fun m n : Message => n.unlinked = m) f.allMessages g.allMessages := by
  rw [← h, allMessages_unlinked, List.forall₂_map_left_iff]
  exact List.forall₂_same.mpr fun _ _ => rfl

/-- A file lists the same top-level messages as before it was linked. -/
theorem messages_of_unlinked (h : g.unlinked = f) :
    g.messages.map Message.unlinked = f.messages := by
  rw [← h, messages, messages, unlinked, List.filter_map]
  refine congrArg _ (List.filter_congr fun m _ => ?_)
  rw [Function.comp_apply, Message.unlinked, Message.toMessageBody_map]
  rfl

end File

/-! ## Nodes that are just made -/

theorem Source.blank_bodyNode (src : Source) (parent : Option String) (path : List Int)
    (d : MessageDecl) : (src.bodyNode parent path d).Blank := by
  constructor
  · rw [bodyNode_fields]
    exact List.forall_mem_map.mpr fun _ _ => ⟨rfl, rfl, rfl⟩
  · rw [bodyNode_extensions]
    exact List.forall_mem_map.mpr fun _ _ => ⟨rfl, rfl, rfl⟩

namespace FileDescriptor

variable (d : FileDescriptor) (scheme : ImportScheme) (generate : Bool)

theorem blank_node : (d.node scheme generate).Blank := by
  constructor
  · refine List.forall_mem_map.mpr fun m _ => ?_
    refine (Source.forall_mem_all_messageNode (P := MessageBody.Blank) (Q := fun _ => True) ?_
      none _ m.1).mpr fun _ _ => trivial
    exact fun parent path d' => iff_true_intro (Source.blank_bodyNode _ parent path d')
  · exact List.forall_mem_map.mpr fun s _ => List.forall_mem_map.mpr fun m _ => ⟨rfl, rfl⟩
  · exact List.forall_mem_map.mpr fun x _ => ⟨rfl, rfl, rfl⟩

/-- What a file `f`, made from the descriptor `d`, has become in `g` when all of it is linked. -/
structure Followed (d : FileDescriptor) (f g : File) : Prop where
  fields : List.Forall₂ (fun p q => q.1 = p.1 ∧ q.2.name = p.2.name ∧ q.2.IsSet)
    d.allFields g.allFields
  methods : List.Forall₂ (fun p q => q.1 = p.1 ∧ q.2.name = p.2.name ∧ q.2.IsSet)
    d.allMethods g.allMethods
  /-- Each message has lost its map entries and nothing else. -/
  nested : List.Forall₂ (fun m n : Message => n.unlinked = m ∧
    n.messages.map Message.unlinked = m.messages.filter fun k => !k.isMapEntry)
    f.allMessages g.allMessages
  messages : g.messages.map Message.unlinked = f.messages

/-- However far a link of the file goes, what it leaves differs in references alone. -/
theorem unlinked_leaves_link (r : Registry Symbol) :
    (leaves (File.link r) (d.node scheme generate)).unlinked = d.node scheme generate :=
  (File.link_becomes r _).unlinked.trans (d.unlinked_node scheme generate)

variable {d scheme generate}

theorem followed_linked {r : Registry Symbol} (h : (d.node scheme generate).Linkable r)
    (unlinked : ((d.node scheme generate).linked r).unlinked = d.node scheme generate) :
    d.Followed (d.node scheme generate) ((d.node scheme generate).linked r) := by
  have fresh := d.fresh_node scheme generate
  constructor
  · have made := d.forall₂_allFields scheme generate (R := fun _ x f => f.name = x.name)
      fun _ _ _ _ => rfl
    rw [File.allFields_linked r fresh, List.forall₂_map_right_iff]
    exact made.imp fun p q hq => ⟨hq.1, hq.2, q.2.isSet_linked r⟩
  · have made := d.forall₂_allMethods scheme generate (R := fun _ m n => n.name = m.name)
      fun _ _ _ _ => rfl
    have linkable : ∀ q ∈ (d.node scheme generate).allMethods, q.2.Linkable r q.1 := by
      simp only [File.allMethods, List.forall_mem_flatMap, List.forall_mem_map]
      exact fun s hs => h.services s hs (fresh.services s hs)
    rw [File.allMethods_linked r fresh, List.forall₂_map_right_iff]
    refine ((List.forall₂_and_left _ _).mpr ⟨linkable, made.flip⟩).flip.imp fun p q hq => ?_
    exact ⟨hq.2.1, hq.2.2, Method.isSet_linked hq.1⟩
  · have hides : ∀ n ∈ ((d.node scheme generate).linked r).allMessages, n.hidesEntries = true := by
      rw [File.allMessages_linked r fresh, List.forall_mem_map]
      intro m _
      rw [Message.toMessageBody_mapListed]
      rfl
    have same := File.forall₂_allMessages_of_unlinked unlinked
    refine ((List.forall₂_and_left _ _).mpr ⟨hides, same.flip⟩).flip.imp fun m n hn => ⟨hn.2, ?_⟩
    rw [Message.messages_of_unlinked hn.2, hn.1]
    rfl
  · exact File.messages_of_unlinked unlinked

end FileDescriptor

/-! ## Linking one file of a session -/

namespace Schema

variable {scheme : ImportScheme} {generate : Bool} {d : FileDescriptor} {s : Schema}

/-- A link of a file that was declared and never linked, and in which nothing is set therefore,
changes no other file and not the registry, however far it goes; in the file it changes nothing but
references, imports and which map entries are listed.  If it goes through, it has set all references
of all fields, extensions and methods of the file, and hidden all map entries in messages. -/
theorem linkFile_confined (h : Pending scheme generate d s) {key : String} {t : Symbol}
    (ht : s.registry.lookup .file key = some t) (name : t.fullName = d.name) :
    (d.node scheme generate).Blank ∧
    ∃ front g back, s.files = front ++ d.node scheme generate :: back ∧
      leaves (linkFile key) s = ⟨s.registry, front ++ g :: back⟩ ∧
      g.unlinked = d.node scheme generate ∧
      ((∃ s', linkFile key s = .ok () s') → d.Followed (d.node scheme generate) g) := by
  obtain ⟨front, back, hfiles, hlink⟩ := h.linkFile_eq ht name
  have unlinked := d.unlinked_leaves_link scheme generate s.registry
  refine ⟨d.blank_node scheme generate, front, _, back, hfiles, ?_, unlinked, ?_⟩
  · rw [leaves, hlink]
    exact Link.leaves_within _ _ _ s
  · rintro ⟨s', hs'⟩
    rw [hlink, Link.within_eq_ok_iff] at hs'
    obtain ⟨g, hg, -⟩ := hs'
    obtain ⟨linkable, rfl⟩ := (File.link_yields s.registry _ g).mp hg
    rw [leaves, hg, final] at unlinked ⊢
    exact FileDescriptor.followed_linked linkable unlinked

/-- The first file of a shop is linked by its second key.  The type that its map has for values is
set, too, although no message lists the entry of the map any more. -/
theorem linkFile_confined_shopSteps : ∃ t,
    (afterAll .bundled {} shopSteps).registry.lookup .file "goods.proto" = some t ∧
    ∃ front g back, (afterAll .bundled {} shopSteps).files =
        front ++ shopFiles[0].node .bundled true :: back ∧
      leaves (linkFile "goods.proto") (afterAll .bundled {} shopSteps) =
        ⟨(afterAll .bundled {} shopSteps).registry, front ++ g :: back⟩ ∧
      g.unlinked = shopFiles[0].node .bundled true ∧
      shopFiles[0].Followed (shopFiles[0].node .bundled true) g := by
  have found : ((afterAll .bundled {} shopSteps).registry.lookup .file "goods.proto").map
      Symbol.fullName = some "shop.proto" := by decide +kernel
  obtain ⟨t, ht, name⟩ := Option.map_eq_some_iff.mp found
  have clean : fault? .bundled (afterAll .bundled {} shopSteps) (.link "goods.proto") = none := by
    decide +kernel
  have run := perform_of_fault?_eq_none .bundled clean
  obtain ⟨-, front, g, back, hfiles, left, unlinked, followed⟩ :=
    linkFile_confined pending_shopSteps ht name
  exact ⟨t, ht, front, g, back, hfiles, left, unlinked, followed ⟨_, run⟩⟩

end Schema

end Protolink

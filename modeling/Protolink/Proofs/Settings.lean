import Mathlib.Data.String.Basic
import Mathlib.Tactic.MkIffOfInductiveProp
import Protolink.Parameters
import Protolink.Proofs.Routes

/-!
# Settings, read and written

A parameter is cut at its commas, and every entry that is not empty sets one key.  `IsEntry` says
which texts are the entries, without cutting, and `Sets` says which key an entry sets.  What is read
is a table with one value for each key, so it is known by looking up keys, and settings that follow
one another are looked up from the last to the first.

Main statement: `Parameters.parse_composes`.
-/

namespace Protolink

/-! ## Entries -/

namespace Text

variable {sep : Char} {cs p : List Char}

/-- With a separator in front, every piece has its own. -/
theorem cons_intercalate (sep : Char) (q : List Char) (qs : List (List Char)) :
    sep :: [sep].intercalate (q :: qs) = (q :: qs).flatMap (sep :: ·) := by
  induction qs generalizing q with
  | nil => simp
  | cons r rs ih =>
    rw [List.flatMap_cons, ← ih r, List.intercalate_cons_cons, List.append_assoc]
    rfl

/-- The pieces of a text are the stretches without separators that stand between two of them, once
one is put at each end of the text. -/
theorem mem_pieces_iff :
    p ∈ pieces sep cs ↔ sep ∉ p ∧ (sep :: (p ++ [sep])) <:+: (sep :: (cs ++ [sep])) := by
  have fenced : pieces sep (sep :: (cs ++ [sep])) = [] :: (pieces sep cs ++ [[]]) := by
    rw [pieces, if_pos rfl, pieces_append_cons, pieces_nil]
  constructor
  · intro h
    refine ⟨notMem_of_mem_pieces h, ?_⟩
    have whole : sep :: cs = (pieces sep cs).flatMap (sep :: ·) := by
      obtain ⟨q, qs, hq⟩ := List.exists_cons_of_ne_nil (pieces_ne_nil sep cs)
      rw [hq, ← cons_intercalate, ← hq, pieces_eq_splitOn, List.intercalate_splitOn]
    obtain ⟨before, after, hp⟩ := List.append_of_mem h
    have next : ∃ rest, after.flatMap (sep :: ·) ++ [sep] = sep :: rest := by
      cases after with
      | nil => exact ⟨[], rfl⟩
      | cons a as => exact ⟨_, rfl⟩
    obtain ⟨rest, hrest⟩ := next
    refine ⟨before.flatMap (sep :: ·), rest, ?_⟩
    calc before.flatMap (sep :: ·) ++ sep :: (p ++ [sep]) ++ rest
        = before.flatMap (sep :: ·) ++ (sep :: p ++ (sep :: rest)) := by simp
      _ = (pieces sep cs).flatMap (sep :: ·) ++ [sep] := by
        rw [← hrest, hp, List.flatMap_append, List.flatMap_cons, List.append_assoc,
          List.append_assoc]
      _ = sep :: (cs ++ [sep]) := by rw [← whole, List.cons_append]
  · rintro ⟨apart, before, after, h⟩
    have cut : pieces sep before ++ p :: pieces sep after = [] :: (pieces sep cs ++ [[]]) := by
      rw [← fenced, ← h, List.append_assoc, List.cons_append, pieces_append_cons, List.append_assoc,
        List.singleton_append, pieces_append_cons, pieces_of_notMem apart]
      rfl
    obtain ⟨b, bs, hb⟩ := List.exists_cons_of_ne_nil (pieces_ne_nil sep before)
    obtain ⟨as, a, ha⟩ := (List.eq_nil_or_concat (pieces sep after)).resolve_left
      (pieces_ne_nil sep after)
    have inner : (bs ++ p :: as) ++ [a] = pieces sep cs ++ [[]] := by
      rw [hb, ha, List.concat_eq_append] at cut
      simpa using (List.cons.inj cut).2
    rw [← (List.append_inj' inner rfl).1]
    exact List.mem_append_right _ List.mem_cons_self

end Text

namespace Parameters

variable {ps qs : Parameters} {key value : String}

/-! ## Tables -/

/-- Gives keys their values, one setting after the other. -/
def update (ps : Parameters) (settings : List (String × String)) : Parameters :=
  settings.foldl (fun ps s => ps.insert s.1 s.2) ps

/-- In increasing order of the keys, and so each key once. -/
def Ordered (ps : Parameters) : Prop := ps.Pairwise fun s t => s.1 < t.1

theorem lookup_cons (s : String × String) (ps : Parameters) (k : String) :
    List.lookup k (s :: ps) = if k = s.1 then some s.2 else ps.lookup k := by
  rw [List.lookup_cons]
  split
  · next h => rw [if_pos (eq_of_beq h)]
  · next h => rw [if_neg (ne_of_beq_false h)]

theorem lookup_insert (key value k : String) (ps : Parameters) :
    (ps.insert key value).lookup k = if k = key then some value else ps.lookup k := by
  induction ps with
  | nil => exact lookup_cons _ _ _
  | cons s rest ih =>
    rw [insert]
    split
    · next hk =>
      subst hk
      grind [lookup_cons]
    · split
      · exact lookup_cons _ _ _
      · -- The settings in front of the new one have other keys.
        grind [lookup_cons]

/-- The last setting of a key counts, and a key without one keeps its value. -/
theorem lookup_update (ps : Parameters) (settings : List (String × String)) (k : String) :
    (ps.update settings).lookup k = (settings.reverse.lookup k).or (ps.lookup k) := by
  induction settings generalizing ps with
  | nil => rfl
  | cons s settings ih =>
    rw [update, List.foldl_cons, ← update, ih, lookup_insert, List.reverse_cons, List.lookup_append,
      Option.or_assoc, lookup_cons]
    congr 1
    split <;> rfl

theorem mem_insert {s : String × String} (h : s ∈ ps.insert key value) :
    s = (key, value) ∨ s ∈ ps := by
  induction ps with
  | nil => exact .inl (List.mem_singleton.mp h)
  | cons t rest ih =>
    rw [insert] at h
    split at h
    · exact (List.mem_cons.mp h).imp id (List.mem_cons_of_mem _)
    · split at h
      · exact List.mem_cons.mp h
      · rcases List.mem_cons.mp h with rfl | h
        · exact .inr List.mem_cons_self
        · exact (ih h).imp id (List.mem_cons_of_mem _)

theorem Ordered.insert (h : ps.Ordered) : (ps.insert key value).Ordered := by
  induction ps with
  | nil => exact List.pairwise_singleton _ _
  | cons s rest ih =>
    obtain ⟨first, inner⟩ := List.pairwise_cons.mp h
    rw [Parameters.insert]
    split
    · next hk =>
      subst hk
      exact List.pairwise_cons.mpr ⟨first, inner⟩
    · split
      · next hlt =>
        refine List.pairwise_cons.mpr ⟨List.forall_mem_cons.mpr ⟨hlt, fun t ht => ?_⟩, h⟩
        exact String.lt_trans hlt (first t ht)
      · next hne hnlt =>
        have after : s.1 < key := (lt_or_gt_of_ne hne).resolve_right hnlt
        refine List.pairwise_cons.mpr ⟨fun t ht => ?_, ih inner⟩
        rcases mem_insert ht with rfl | ht
        · exact after
        · exact first t ht

theorem Ordered.update (h : ps.Ordered) (settings : List (String × String)) :
    (ps.update settings).Ordered := by
  induction settings generalizing ps with
  | nil => exact h
  | cons s settings ih => exact ih h.insert

theorem Ordered.nodup (h : ps.Ordered) : (ps.map Prod.fst).Nodup := by
  refine List.pairwise_map.mpr (h.imp fun lt => ?_)
  exact ne_of_lt lt

/-- If no key is there twice, each setting is found under its key. -/
theorem mem_iff_lookup (h : (ps.map Prod.fst).Nodup) {s : String × String} :
    s ∈ ps ↔ ps.lookup s.1 = some s.2 := by
  rw [List.lookup_eq_some_iff]
  constructor
  · intro hs
    obtain ⟨before, after, rfl⟩ := List.append_of_mem hs
    refine ⟨before, after, rfl, fun t ht => bne_iff_ne.mpr ?_⟩
    rw [List.map_append, List.nodup_append] at h
    exact (h.2.2 t.1 (List.mem_map_of_mem ht) s.1 (List.mem_map_of_mem List.mem_cons_self)).symm
  · rintro ⟨before, after, rfl, -⟩
    exact List.mem_append_right _ List.mem_cons_self

/-- A table can be read in either direction. -/
theorem Ordered.lookup_reverse (h : ps.Ordered) (k : String) :
    ps.reverse.lookup k = ps.lookup k := by
  have reversed : (ps.reverse.map Prod.fst).Nodup := by
    rw [List.map_reverse]
    exact List.nodup_reverse.mpr h.nodup
  ext v
  have same := (mem_iff_lookup reversed (s := (k, v))).symm.trans List.mem_reverse
  exact same.trans (mem_iff_lookup h.nodup)

/-- Tables are the same if they give the same values to all keys. -/
theorem Ordered.ext (hp : ps.Ordered) (hq : qs.Ordered) (h : ∀ k, ps.lookup k = qs.lookup k) :
    ps = qs := by
  refine List.Perm.eq_of_pairwise (fun s t _ _ hst hts => ?_) hp hq ?_
  · exact absurd (lt_trans hst hts) (lt_irrefl _)
  · refine (List.perm_ext_iff_of_nodup hp.nodup.of_map hq.nodup.of_map).mpr fun s => ?_
    rw [mem_iff_lookup hp.nodup, mem_iff_lookup hq.nodup, h]

theorem mem_update {s : String × String} {settings : List (String × String)}
    (h : s ∈ ps.update settings) : s ∈ ps ∨ s ∈ settings := by
  induction settings generalizing ps with
  | nil => exact .inl h
  | cons t settings ih =>
    rcases ih h with h | h
    · rcases mem_insert h with rfl | h
      · exact .inr List.mem_cons_self
      · exact .inl h
    · exact .inr (List.mem_cons_of_mem _ h)

/-! ## Reading -/

/-- The settings in a parameter, one for each entry that is not empty. -/
def settings (parameter : String) : List (String × String) :=
  ((Text.pieces ',' parameter.toList).filter (· ≠ [])).map setting

theorem parse_eq (parameter : String) : parse parameter = update [] (settings parameter) := by
  rw [parse, update, settings, List.foldl_map]

theorem ordered_parse (parameter : String) : (parse parameter).Ordered := by
  rw [parse_eq]
  exact Ordered.update List.Pairwise.nil _

theorem settings_append (a b : String) : settings (a ++ "," ++ b) = settings a ++ settings b := by
  have text : (a ++ "," ++ b).toList = a.toList ++ ',' :: b.toList := by
    rw [String.toList_append, String.toList_append, List.append_assoc]
    rfl
  rw [settings, text, Text.pieces_append_cons, List.filter_append, List.map_append]
  rfl

theorem lookup_parse (parameter key : String) :
    (parse parameter).lookup key = (settings parameter).reverse.lookup key := by
  rw [parse_eq, lookup_update, List.lookup_nil, Option.or_none]

/-! ## Writing -/

/-- A key and a value of which a setting can be written: it is read as these two again. -/
@[mk_iff]
structure Writable (s : String × String) : Prop where
  key_comma : ',' ∉ s.1.toList
  key_equals : '=' ∉ s.1.toList
  value : ',' ∉ s.2.toList

instance : DecidablePred Writable := fun s => decidable_of_iff' _ (writable_iff s)

/-- The text of settings. -/
def written (settings : List (String × String)) : String :=
  ",".intercalate (settings.map fun s => s.1 ++ "=" ++ s.2)

theorem setting_append {before : List Char} (h : '=' ∉ before) (after : List Char) :
    setting (before ++ '=' :: after) = (String.ofList before, String.ofList after) := by
  have all : ∀ c ∈ before, (c != '=') = true :=
    fun c hc => bne_iff_ne.mpr (ne_of_mem_of_not_mem hc h)
  rw [setting, Text.beforeFirst, Text.afterFirst, List.takeWhile_append_of_pos all,
    List.dropWhile_append_of_pos all]
  simp

theorem setting_of_notMem {entry : List Char} (h : '=' ∉ entry) :
    setting entry = (String.ofList entry, "") := by
  have all : ∀ c ∈ entry, (c != '=') = true :=
    fun c hc => bne_iff_ne.mpr (ne_of_mem_of_not_mem hc h)
  rw [setting, Text.beforeFirst, Text.afterFirst, List.takeWhile_eq_self_iff.mpr all,
    List.dropWhile_eq_nil_iff.mpr all]
  rfl

theorem settings_written {ss : List (String × String)} (h : ∀ s ∈ ss, Writable s) :
    settings (written ss) = ss := by
  let text (s : String × String) : List Char := s.1.toList ++ '=' :: s.2.toList
  have apart : ∀ p ∈ ss.map text, ',' ∉ p := by
    refine List.forall_mem_map.mpr fun s hs => ?_
    simp [text, (h s hs).key_comma, (h s hs).value]
  have texts : (written ss).toList = [','].intercalate (ss.map text) := by
    rw [written, String.toList_intercalate, List.map_map]
    congr 1
    exact List.map_congr_left fun s _ => by simp [text]
  cases ss with
  | nil => rfl
  | cons s ss =>
    rw [settings, texts, Text.pieces_intercalate apart (List.cons_ne_nil _ _),
      List.filter_eq_self.mpr, List.map_map]
    · refine (List.map_congr_left fun t ht => ?_).trans (List.map_id _)
      rw [Function.comp_apply, setting_append (h t ht).key_equals]
      simp
    · exact List.forall_mem_map.mpr fun t _ => by simp [text]

theorem writable_setting {entry : List Char} (h : ',' ∉ entry) : Writable (setting entry) := by
  constructor
  · rw [setting, String.toList_ofList]
    exact fun hc => h ((List.takeWhile_sublist _).mem hc)
  · rw [setting, String.toList_ofList]
    intro hc
    simpa using List.mem_takeWhile_imp hc
  · rw [setting, String.toList_ofList]
    exact fun hc => h ((List.dropWhile_sublist _).mem (List.mem_of_mem_drop hc))

/-- What is read can be written again. -/
theorem writable_of_mem_parse {parameter : String} : ∀ s ∈ parse parameter, Writable s := by
  intro s hs
  rw [parse_eq] at hs
  have read := (mem_update hs).resolve_left List.not_mem_nil
  obtain ⟨entry, hentry, rfl⟩ := List.mem_map.mp read
  exact writable_setting (Text.notMem_of_mem_pieces (List.mem_filter.mp hentry).1)

/-- The entries of a parameter: the stretches without commas between the commas and the ends. -/
def IsEntry (parameter : String) (entry : List Char) : Prop :=
  ',' ∉ entry ∧ (',' :: (entry ++ [','])) <:+: (',' :: (parameter.toList ++ [',']))

/-- An entry sets the key that stands in it before the first equals sign, or alone. -/
def Sets (entry : List Char) (key : String) : Prop :=
  '=' ∉ key.toList ∧ (entry = key.toList ∨ ∃ value, entry = key.toList ++ '=' :: value)

theorem sets_iff {entry : List Char} {key : String} : Sets entry key ↔ (setting entry).1 = key := by
  constructor
  · rintro ⟨apart, rfl | ⟨value, rfl⟩⟩
    · rw [setting_of_notMem apart, String.ofList_toList]
    · rw [setting_append apart, String.ofList_toList]
  · rintro rfl
    by_cases h : '=' ∈ entry
    · obtain ⟨before, after, rfl, apart⟩ := List.eq_append_cons_of_mem h
      rw [setting_append apart, Sets, String.toList_ofList]
      exact ⟨apart, .inr ⟨after, rfl⟩⟩
    · rw [setting_of_notMem h, Sets, String.toList_ofList]
      exact ⟨h, .inl rfl⟩

theorem exists_mem_settings_iff {parameter key : String} :
    (∃ s ∈ settings parameter, s.1 = key) ↔
      ∃ entry, IsEntry parameter entry ∧ entry ≠ [] ∧ Sets entry key := by
  constructor
  · rintro ⟨s, hs, rfl⟩
    obtain ⟨entry, hentry, rfl⟩ := List.mem_map.mp hs
    obtain ⟨piece, filled⟩ := List.mem_filter.mp hentry
    exact ⟨entry, Text.mem_pieces_iff.mp piece, of_decide_eq_true filled, sets_iff.mpr rfl⟩
  · rintro ⟨entry, piece, filled, sets⟩
    refine ⟨setting entry, List.mem_map_of_mem (List.mem_filter.mpr ?_), sets_iff.mp sets⟩
    exact ⟨Text.mem_pieces_iff.mpr piece, decide_eq_true filled⟩

/-- Parameters compose.  Of a parameter that continues another one, the settings are put into the
table of the other one and count where both have a key.  Settings that are written down one after
the other are read as the table in which each key has the last value that it was given.  Whatever
the parameter is, it is read as a table of settings that can be written again, and this table has
the keys that are set by an entry that is not empty. -/
theorem parse_composes :
    (∀ a b, parse (a ++ "," ++ b) = (parse a).update (parse b) ∧
      ∀ key, (parse (a ++ "," ++ b)).lookup key =
        ((parse b).lookup key).or ((parse a).lookup key)) ∧
    (∀ ss, (∀ s ∈ ss, Writable s) → ∀ key,
      (parse (written ss)).lookup key = ss.reverse.lookup key) ∧
    ∀ p, (parse p).Ordered ∧ (∀ s ∈ parse p, Writable s) ∧
      ∀ key, ((parse p).lookup key).isSome ↔
        ∃ entry, IsEntry p entry ∧ entry ≠ [] ∧ Sets entry key := by
  have composed (a b key : String) : (parse (a ++ "," ++ b)).lookup key =
      ((parse b).lookup key).or ((parse a).lookup key) := by
    rw [lookup_parse, settings_append, List.reverse_append, List.lookup_append, ← lookup_parse,
      ← lookup_parse]
  refine ⟨fun a b => ⟨?_, composed a b⟩, fun ss h key => ?_, fun p => ?_⟩
  · refine (ordered_parse _).ext ((ordered_parse a).update _) fun key => ?_
    rw [composed, lookup_update, (ordered_parse b).lookup_reverse]
  · rw [lookup_parse, settings_written h]
  · refine ⟨ordered_parse p, writable_of_mem_parse, fun key => ?_⟩
    rw [lookup_parse, List.lookup_isSome_iff, ← exists_mem_settings_iff]
    simp only [List.mem_reverse, beq_iff_eq, @eq_comm _ key]

/-- A key that is set twice, once with an equals sign in its value, a key that is empty, and an
entry that is empty. -/
theorem parse_composes_mixed :
    let ss := [("k", "1"), ("", "v"), ("k", "a=b"), ("e", "")]
    (∀ s ∈ ss, Writable s) ∧ written ss = "k=1,=v,k=a=b,e=" ∧
      (parse "k=1,=v,k=a=b,e=").lookup "k" = some "a=b" ∧
      (parse "k=1,=v,k=a=b,e=,,e=2,n").lookup "e" = some "2" := by
  intro ss
  have writable : ∀ s ∈ ss, Writable s := by decide
  have text : written ss = "k=1,=v,k=a=b,e=" := by decide
  obtain ⟨composed, written, -⟩ := parse_composes
  refine ⟨writable, text, ?_, ?_⟩
  · rw [← text]
    exact written ss writable "k"
  · have later : (parse ",e=2,n").lookup "e" = some "2" := by decide +kernel
    have both := (composed "k=1,=v,k=a=b,e=" ",e=2,n").2 "e"
    rwa [later, Option.some_or] at both

end Parameters

end Protolink

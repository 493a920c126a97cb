import Mathlib
import Protolink.Name.Json

/-!
# Camel case as a substitution

Camel case replaces every find of a pattern: a stretch of characters that are no letters or digits,
and one more character, which may be anything but a line feed.  A find is as long as it can be, so
it ends with the letter or digit after a stretch; at the end of a text there is none, and the find
gives back characters until it ends with one that is no line feed.  `Scan` is this substitution,
step by step from the left, and `body` and `tail` say in one go what comes of it.

Main statement: `Name.camelCase_spelled`.
-/

namespace Protolink

/-! ## Upper case -/

namespace Text

/-- What holds of the first 128 characters. -/
theorem forall_ascii {P : Char → Prop} (table : ∀ n < 128, P (Char.ofNat n)) (c : Char)
    (h : c.toNat < 128) : P c := by
  have char := table c.toNat h
  rwa [Char.ofNat_toNat] at char

/-- Of ASCII, letters alone have another upper-case form, and it is one letter. -/
theorem upperChar_ascii {c : Char} (h : c.toNat < 128) : upperChar c = [c.toUpper] :=
  forall_ascii (P := fun c => upperChar c = [c.toUpper]) (by decide +kernel) c h

theorem ascii_of_isAlphanum {c : Char} (h : c.isAlphanum) : c.toNat < 128 := by
  simp only [Char.isAlphanum, Char.isAlpha, Char.isUpper, Char.isLower, Char.isDigit,
    Bool.or_eq_true, Bool.and_eq_true, decide_eq_true_eq, ge_iff_le, UInt32.le_iff_toNat_le] at h
  have lower : 'z'.val.toNat = 122 := rfl
  have upper : 'Z'.val.toNat = 90 := rfl
  have digit : '9'.val.toNat = 57 := rfl
  have code : c.toNat = c.val.toNat := rfl
  omega

theorem isAlphanum_toUpper {c : Char} (h : c.toNat < 128) :
    c.toUpper.isAlphanum = c.isAlphanum :=
  forall_ascii (P := fun c => c.toUpper.isAlphanum = c.isAlphanum) (by decide +kernel) c h

/-- Of ASCII, what is no letter is its own upper-case form. -/
theorem toUpper_of_gap {c : Char} (h : c.toNat < 128) : c.isAlphanum = false → c.toUpper = c :=
  forall_ascii (P := fun c => c.isAlphanum = false → c.toUpper = c) (by decide +kernel) c h

end Text

namespace Name

/-! ## The substitution -/

/-- A character that is no ASCII letter or digit. -/
def isGap (c : Char) : Bool := !c.isAlphanum

/-- A find at the start of a text: a stretch of gaps, and one more character that is no line
feed. -/
structure Found (text gaps : List Char) (c : Char) (rest : List Char) : Prop where
  cut : text = gaps ++ c :: rest
  nonempty : gaps ≠ []
  stretch : ∀ g ∈ gaps, isGap g
  kept : c ≠ '\n'

/-- A text and what comes of it from the left to the right.  Where nothing is found a character is
kept; otherwise the longest find is replaced by its last character, raised, and the scan goes on
after it. -/
inductive Scan : List Char → List Char → Prop
  | done : Scan [] []
  | keep {c : Char} {cs out : List Char} (none : ∀ gaps d rest, ¬Found (c :: cs) gaps d rest) :
      Scan cs out → Scan (c :: cs) (c :: out)
  | replace {text gaps rest out : List Char} {c : Char} (found : Found text gaps c rest)
      (longest : ∀ gaps' d rest', Found text gaps' d rest' → gaps'.length ≤ gaps.length) :
      Scan rest out → Scan text (Text.upperChar c ++ out)

theorem Found.ne_nil {text gaps rest : List Char} {c : Char} (h : Found text gaps c rest) :
    text ≠ [] := by
  rw [h.cut]
  exact List.append_ne_nil_of_right_ne_nil _ (List.cons_ne_nil _ _)

/-- A text is scanned in one way. -/
theorem Scan.unique {text out out' : List Char} (h : Scan text out) (h' : Scan text out') :
    out = out' := by
  induction h generalizing out' with
  | done =>
    cases h' with
    | done => rfl
    | replace found => exact absurd rfl found.ne_nil
  | keep none _ ih =>
    cases h' with
    | keep _ rest => rw [ih rest]
    | replace found => exact absurd found (none _ _ _)
  | replace found longest _ ih =>
    cases h' with
    | done => exact absurd rfl found.ne_nil
    | keep none => exact absurd found (none _ _ _)
    | replace found' longest' rest =>
      have lengths := Nat.le_antisymm (longest' _ _ _ found) (longest _ _ _ found')
      obtain ⟨-, same⟩ := List.append_inj (found.cut.symm.trans found'.cut) lengths
      obtain ⟨rfl, rfl⟩ := List.cons.inj same
      rw [ih rest]

/-! ## The end of a text -/

/-- A text ends with line feeds, in front of which there is another character, and more in front of
this one; or there is no such character. -/
theorem feeds_or_kept (cs : List Char) : (∀ c ∈ cs.tail, c = '\n') ∨
    ∃ front c n, front ≠ [] ∧ c ≠ '\n' ∧ cs = front ++ c :: List.replicate n '\n' := by
  induction cs using List.reverseRecOn with
  | nil => exact .inl (List.forall_mem_nil _)
  | append_singleton cs x ih =>
    cases cs with
    | nil => exact .inl (List.forall_mem_nil _)
    | cons y ys =>
      by_cases hx : x = '\n'
      · subst hx
        rcases ih with feeds | ⟨front, c, n, hfront, hc, h⟩
        · refine .inl (List.forall_mem_append.mpr ⟨feeds, ?_⟩)
          exact List.forall_mem_singleton.mpr rfl
        · refine .inr ⟨front, c, n + 1, hfront, hc, ?_⟩
          rw [h, List.replicate_succ', List.append_assoc, List.cons_append]
      · exact .inr ⟨y :: ys, x, 0, List.cons_ne_nil _ _, hx, rfl⟩

/-- What comes of gaps at the end of a text.  The last of them that is no line feed and not the
first is raised, and what stands in front of it goes. -/
def tail (gaps : List Char) : List Char :=
  match (gaps.zipIdx.filter fun p => 1 ≤ p.2 ∧ p.1 ≠ '\n').getLast? with
  | none => gaps
  | some (c, i) => Text.upperChar c ++ gaps.drop (i + 1)

section Tail

variable {cs front : List Char} {c : Char} {n : Nat}

theorem tail_of_feeds (h : ∀ c ∈ cs.tail, c = '\n') : tail cs = cs := by
  have none : cs.zipIdx.filter (fun p => 1 ≤ p.2 ∧ p.1 ≠ '\n') = [] := by
    cases cs with
    | nil => rfl
    | cons c cs =>
      rw [List.zipIdx_cons, List.filter_cons_of_neg (by simp), List.filter_eq_nil_iff]
      intro p hp
      simp [h _ (List.fst_mem_of_mem_zipIdx hp)]
  rw [tail, none]
  rfl

theorem tail_of_kept (hfront : front ≠ []) (hc : c ≠ '\n') :
    tail (front ++ c :: List.replicate n '\n') = Text.upperChar c ++ List.replicate n '\n' := by
  have feeds : ((List.replicate n '\n').zipIdx (front.length + 1)).filter
      (fun p => 1 ≤ p.2 ∧ p.1 ≠ '\n') = [] := by
    refine List.filter_eq_nil_iff.mpr fun p hp => ?_
    simp [List.eq_of_mem_replicate (List.fst_mem_of_mem_zipIdx hp)]
  have place : 1 ≤ front.length := List.length_pos_iff.mpr hfront
  have last : ((front ++ c :: List.replicate n '\n').zipIdx.filter
      (fun p => 1 ≤ p.2 ∧ p.1 ≠ '\n')).getLast? = some (c, front.length) := by
    rw [List.zipIdx_append, List.zipIdx_cons, List.filter_append, Nat.zero_add,
      List.filter_cons_of_pos (by simp [place, hc]), feeds, List.getLast?_append]
    rfl
  rw [tail, last]
  simp

theorem camelTail_of_feeds (h : ∀ c ∈ cs.tail, c = '\n') : camelTail cs.reverse = cs := by
  cases cs with
  | nil => rfl
  | cons c cs =>
    have feeds : ∀ x ∈ cs.reverse, (x == '\n') = true :=
      fun x hx => beq_iff_eq.mpr (h x (List.mem_reverse.mp hx))
    rw [camelTail, List.reverse_cons, List.dropWhile_append_of_pos feeds]
    by_cases hc : c = '\n' <;> simp [hc]

theorem camelTail_of_kept (hfront : front ≠ []) (hc : c ≠ '\n') :
    camelTail (front ++ c :: List.replicate n '\n').reverse =
      Text.upperChar c ++ List.replicate n '\n' := by
  obtain ⟨d, ds, hds⟩ := List.exists_cons_of_ne_nil (List.reverse_ne_nil_iff.mpr hfront)
  have feeds : ∀ x ∈ List.replicate n '\n', (x == '\n') = true :=
    fun x hx => beq_iff_eq.mpr (List.eq_of_mem_replicate hx)
  rw [camelTail, List.reverse_append, List.reverse_cons, List.reverse_replicate, hds,
    List.append_assoc, List.takeWhile_append_of_pos feeds, List.dropWhile_append_of_pos feeds]
  simp [hc]

theorem camelTail_reverse (gaps : List Char) : camelTail gaps.reverse = tail gaps := by
  rcases feeds_or_kept gaps with feeds | ⟨front, c, n, hfront, hc, rfl⟩
  · rw [camelTail_of_feeds feeds, tail_of_feeds feeds]
  · rw [camelTail_of_kept hfront hc, tail_of_kept hfront hc]

end Tail

/-! ## Camel case is the substitution -/

/-- Gaps are put aside until it is known what follows them. -/
theorem camelFrom_gaps {gaps : List Char} (h : ∀ g ∈ gaps, isGap g) (before cs : List Char) :
    camelFrom before (gaps ++ cs) = camelFrom (gaps.reverse ++ before) cs := by
  induction gaps generalizing before with
  | nil => rfl
  | cons g gaps ih =>
    obtain ⟨hg, rest⟩ := List.forall_mem_cons.mp h
    have gap : g.isAlphanum = false := by simpa [isGap] using hg
    rw [List.cons_append, camelFrom, if_neg (by simp [gap]), ih rest, List.reverse_cons,
      List.append_assoc]
    rfl

theorem camelFrom_end {gaps : List Char} (h : ∀ g ∈ gaps, isGap g) :
    camelFrom [] gaps = tail gaps := by
  have aside := camelFrom_gaps h [] []
  rwa [List.append_nil, List.append_nil, camelFrom, camelTail_reverse] at aside

/-- Nothing is found in a text of which only the first character is no line feed. -/
theorem scan_feeds : ∀ {cs : List Char}, (∀ c ∈ cs.tail, c = '\n') → Scan cs cs
  | [], _ => .done
  | c :: cs, h => by
    have rest_feeds : ∀ x ∈ cs.tail, x = '\n' := fun x hx => h x (List.mem_of_mem_tail hx)
    refine .keep (fun gaps d rest found => ?_) (scan_feeds rest_feeds)
    obtain ⟨g, gs, rfl⟩ := List.exists_cons_of_ne_nil found.nonempty
    have cut := (List.cons.inj found.cut).2
    refine found.kept (h d ?_)
    rw [List.tail_cons, cut]
    exact List.mem_append_right _ List.mem_cons_self

/-- Gaps that end where a text goes on with a character that is no gap, or with line feeds alone,
are the longest that are found. -/
theorem Found.length_le {front gaps rest rest' : List Char} {c d : Char}
    (found : Found (front ++ c :: rest) gaps d rest')
    (h : isGap c = false ∨ ∀ x ∈ rest, x = '\n') : gaps.length ≤ front.length := by
  rcases List.append_eq_append_iff.mp found.cut with ⟨more, rfl, hmore⟩ | ⟨more, rfl, -⟩
  · cases more with
    | nil => rw [List.append_nil]
    | cons g more =>
      obtain ⟨rfl, rfl⟩ := List.cons.inj hmore
      rcases h with letter | feeds
      · have gap := found.stretch c (List.mem_append_right _ List.mem_cons_self)
        exact absurd gap (by simp [letter])
      · exact absurd (feeds d (List.mem_append_right _ List.mem_cons_self)) found.kept
  · rw [List.length_append]
    exact Nat.le_add_right _ _

theorem scan_end {gaps : List Char} (h : ∀ g ∈ gaps, isGap g) : Scan gaps (tail gaps) := by
  rcases feeds_or_kept gaps with feeds | ⟨front, c, n, hfront, hc, rfl⟩
  · rw [tail_of_feeds feeds]
    exact scan_feeds feeds
  · rw [tail_of_kept hfront hc]
    have feeds : ∀ x ∈ List.replicate n '\n', x = '\n' := fun x => List.eq_of_mem_replicate
    refine .replace ⟨rfl, hfront, fun g hg => h g (List.mem_append_left _ hg), hc⟩ ?_
      (scan_feeds fun x hx => feeds x (List.mem_of_mem_tail hx))
    exact fun gaps' d rest' found => found.length_le (.inr feeds)

theorem camelFrom_letter {gaps : List Char} (h : ∀ g ∈ gaps, isGap g) {c : Char}
    (hc : isGap c = false) (rest : List Char) :
    camelFrom [] (gaps ++ c :: rest) =
      (if gaps = [] then [c] else Text.upperChar c) ++ camelFrom [] rest := by
  have letter : c.isAlphanum = true := by simpa [isGap] using hc
  rw [camelFrom_gaps h, camelFrom, if_pos letter]
  simp

/-- Camel case is what comes of a text that is scanned. -/
theorem scan_camelFrom (cs : List Char) : Scan cs (camelFrom [] cs) := by
  -- Up to the first letter there are gaps alone, and after it the scan starts anew.
  have stretch : ∀ g ∈ cs.takeWhile isGap, isGap g := fun g => List.mem_takeWhile_imp
  have cut := List.takeWhile_append_dropWhile (p := isGap) (l := cs)
  cases hrest : cs.dropWhile isGap with
  | nil =>
    rw [hrest, List.append_nil] at cut
    rw [cut] at stretch
    rw [camelFrom_end stretch]
    exact scan_end stretch
  | cons c rest =>
    have letter : isGap c = false := by
      have head := List.head?_dropWhile_not isGap cs
      simpa [hrest] using head
    have shorter : rest.length < cs.length := by
      rw [← cut, hrest, List.length_append, List.length_cons]
      omega
    rw [← cut, hrest, camelFrom_letter stretch letter]
    split
    · next none =>
      rw [none]
      refine .keep (fun gaps d rest' found => ?_) (scan_camelFrom rest)
      have length : gaps.length ≤ ([] : List Char).length := found.length_le (.inl letter)
      exact found.nonempty (List.eq_nil_of_length_eq_zero (Nat.le_zero.mp length))
    · next some =>
      refine .replace ⟨rfl, some, stretch, ?_⟩ (fun gaps d rest' found => ?_) (scan_camelFrom rest)
      · rintro rfl
        exact absurd letter (by decide)
      · exact found.length_le (.inl letter)
termination_by cs.length

/-! ## What comes of a text -/

/-- What comes of a character that is not at the end of a text, given the one in front of it. -/
def respelled : Char × Option Char → Option Char
  | (c, before) =>
    if c.isAlphanum then some (if before.any isGap then c.toUpper else c) else none

/-- The letters and digits of a text, each raised if it directly follows a gap. -/
def body (cs : List Char) : List Char := (cs.zip (none :: cs.map some)).filterMap respelled

theorem respelled_letter {c : Char} (hc : c.isAlphanum) {gaps : List Char} {before : Option Char}
    (h : gaps = [] ↔ before.any isGap = false) :
    (respelled (c, before)).toList = if gaps = [] then [c] else Text.upperChar c := by
  rw [respelled, if_pos hc, Text.upperChar_ascii (Text.ascii_of_isAlphanum hc)]
  by_cases hg : gaps = []
  · simp [hg, h.mp hg]
  · simp [hg, Bool.not_eq_false _ ▸ h.not.mp hg]

/-- A text that ends with a letter or digit leaves no gaps to what follows it. -/
theorem camelFrom_append (rest : List Char) : ∀ (cs gaps : List Char) (before : Option Char),
    (gaps = [] ↔ before.any isGap = false) → (cs = [] → gaps = []) →
    (∀ c ∈ cs.getLast?, isGap c = false) →
    camelFrom gaps (cs ++ rest) =
      (cs.zip (before :: cs.map some)).filterMap respelled ++ camelFrom [] rest
  | [], gaps, before, _, empty, _ => by
    rw [empty rfl]
    rfl
  -- Gaps are put aside just as long as the character in front is one of them.
  | c :: cs, gaps, before, h, _, last => by
    have last' : ∀ d ∈ cs.getLast?, isGap d = false := by
      intro d hd
      refine last d ?_
      rw [List.getLast?_cons, Option.mem_def.mp hd]
      rfl
    rw [List.cons_append, camelFrom, List.map_cons, List.zip_cons_cons, List.filterMap_cons]
    by_cases hc : c.isAlphanum
    · have ih := camelFrom_append rest cs [] (some c) (by simp [isGap, hc]) (fun _ => rfl) last'
      have letter := respelled_letter hc h
      rw [if_pos hc, ih, ← letter]
      cases respelled (c, before) <;> rfl
    · have gap : isGap c := by simp [isGap, hc]
      have ih := camelFrom_append rest cs (c :: gaps) (some c) (by simp [gap])
        (fun empty => absurd (last c (by rw [empty]; rfl)) (by simp [gap])) last'
      rw [if_neg hc, ih, respelled, if_neg hc]

theorem camelFrom_split {cs gaps : List Char} (hcs : ∀ c ∈ cs.getLast?, isGap c = false)
    (hgaps : ∀ g ∈ gaps, isGap g) : camelFrom [] (cs ++ gaps) = body cs ++ tail gaps := by
  rw [camelFrom_append gaps cs [] none (by simp) (fun _ => rfl) hcs, camelFrom_end hgaps, body]

theorem isAlphanum_of_mem_body {cs : List Char} : ∀ c ∈ body cs, c.isAlphanum := by
  intro c hc
  obtain ⟨⟨d, before⟩, -, hd⟩ := List.mem_filterMap.mp hc
  rw [respelled] at hd
  split at hd
  · next letter =>
    obtain rfl := Option.some.inj hd
    split
    · rw [Text.isAlphanum_toUpper (Text.ascii_of_isAlphanum letter)]
      exact letter
    · exact letter
  · exact absurd hd nofun

theorem filterMap_respelled_of_letters : ∀ {cs : List Char} {before : Option Char},
    (∀ c ∈ cs, c.isAlphanum) → before.any isGap = false →
    (cs.zip (before :: cs.map some)).filterMap respelled = cs
  | [], _, _, _ => rfl
  | c :: cs, before, h, hbefore => by
    obtain ⟨hc, hcs⟩ := List.forall_mem_cons.mp h
    have letter : respelled (c, before) = some c := by
      rw [respelled, if_pos hc, if_neg (by simp [hbefore])]
    rw [List.map_cons, List.zip_cons_cons, List.filterMap_cons_some letter,
      filterMap_respelled_of_letters hcs (by simp [isGap, hc])]

/-- Letters and digits alone are left as they are. -/
theorem body_of_letters {cs : List Char} (h : ∀ c ∈ cs, c.isAlphanum) : body cs = cs :=
  filterMap_respelled_of_letters h rfl

/-- Gaps of ASCII that were at the end of a text once are left as they are. -/
theorem tail_tail {gaps : List Char} (h : ∀ g ∈ gaps, isGap g ∧ g.toNat < 128) :
    (∀ g ∈ tail gaps, isGap g) ∧ tail (tail gaps) = tail gaps := by
  rcases feeds_or_kept gaps with feeds | ⟨front, c, n, hfront, hc, rfl⟩
  · rw [tail_of_feeds feeds, tail_of_feeds feeds]
    exact ⟨fun g hg => (h g hg).1, rfl⟩
  · obtain ⟨gap, ascii⟩ := h c (List.mem_append_right _ List.mem_cons_self)
    have same : Text.upperChar c = [c] := by
      rw [Text.upperChar_ascii ascii, Text.toUpper_of_gap ascii (by simpa [isGap] using gap)]
    have feeds : ∀ x ∈ List.replicate n '\n', x = '\n' := fun x => List.eq_of_mem_replicate
    rw [tail_of_kept hfront hc, same, List.singleton_append]
    refine ⟨List.forall_mem_cons.mpr ⟨gap, fun x hx => ?_⟩, tail_of_feeds feeds⟩
    rw [feeds x hx]
    decide

/-- The end of a text from which the gaps are dropped. -/
theorem getLast?_rdropWhile (cs : List Char) :
    ∀ c ∈ (cs.rdropWhile isGap).getLast?, isGap c = false := by
  intro c hc
  obtain ⟨ne, rfl⟩ := List.mem_getLast?_eq_getLast hc
  exact eq_false_of_ne_true (List.rdropWhile_last_not isGap cs ne)

theorem camelCase_toList (s : String) : (camelCase s).toList =
    body (s.toList.rdropWhile isGap) ++ tail (s.toList.rtakeWhile isGap) := by
  have gaps : ∀ g ∈ s.toList.rtakeWhile isGap, isGap g := fun g => List.mem_rtakeWhile_imp
  have split := camelFrom_split (getLast?_rdropWhile s.toList) gaps
  rwa [List.rdropWhile_append_rtakeWhile, ← String.toList_ofList (l := camelFrom _ _)] at split

/-- Letters and digits in front of gaps that were at the end of a text once are camel case
already. -/
theorem camelCase_body_tail {s : String} {cs gaps : List Char}
    (hgaps : ∀ g ∈ gaps, isGap g ∧ g.toNat < 128) (hs : s.toList = body cs ++ tail gaps) :
    camelCase s = s := by
  obtain ⟨still, same⟩ := tail_tail hgaps
  have letters : ∀ c ∈ (body cs).getLast?, isGap c = false := by
    intro c hc
    simp [isGap, isAlphanum_of_mem_body c (List.mem_of_getLast? hc)]
  rw [← String.toList_inj, camelCase, String.toList_ofList, hs, camelFrom_split letters still,
    body_of_letters isAlphanum_of_mem_body, same]

/-- The camel case of a text is what comes of it when each find is replaced from the left to the
right.  The gaps at the end of the text apart, it has the letters and digits of the text in their
order, where those are raised that directly follow a gap.  Of the gaps at the end it has the last
that is neither a line feed nor the first of them, raised, and the line feeds after it; or all of
them, if there is no such one.  So a text of ASCII that is in camel case stays as it is. -/
theorem camelCase_spelled (s : String) :
    (∀ out, Scan s.toList out ↔ out = (camelCase s).toList) ∧
    (camelCase s).toList =
      body (s.toList.rdropWhile isGap) ++ tail (s.toList.rtakeWhile isGap) ∧
    ((∀ c ∈ s.toList, c.toNat < 128) → camelCase (camelCase s) = camelCase s) := by
  have scanned : Scan s.toList (camelCase s).toList := by
    rw [camelCase, String.toList_ofList]
    exact scan_camelFrom s.toList
  refine ⟨fun out => ⟨fun h => h.unique scanned, ?_⟩, camelCase_toList s, fun ascii => ?_⟩
  · rintro rfl
    exact scanned
  · refine camelCase_body_tail (fun g hg => ⟨List.mem_rtakeWhile_imp hg, ?_⟩) (camelCase_toList s)
    exact ascii g ((List.rtakeWhile_suffix isGap s.toList).subset hg)

/-- At the start, between letters and at the end, with line feeds. -/
theorem camelCase_spelled_lines :
    camelCase "_foo__bar-1x_\n_\n" = "FooBar1x_\n" ∧ camelCase "FooBar1x_\n" = "FooBar1x_\n" := by
  have spelled : camelCase "_foo__bar-1x_\n_\n" = "FooBar1x_\n" := by decide +kernel
  have ascii : "_foo__bar-1x_\n_\n".toList.all fun c => c.toNat < 128 := by decide +kernel
  have twice := (camelCase_spelled "_foo__bar-1x_\n_\n").2.2 fun c hc =>
    of_decide_eq_true (List.all_eq_true.mp ascii c hc)
  rw [spelled] at twice
  exact ⟨spelled, twice⟩

end Name

end Protolink

import Protolink.Proofs.CamelCase

/-!
# Reserved words in JSON

In camel case no lower-case letter stands anywhere after a character that is no letter or digit: a
stretch of such characters goes when a letter follows it, and what is raised has no lower-case
letters.  The underscore of `pb_` is followed by the letters of a reserved word, so an escaped word
is the camel case of no name.

Main statement: `Name.json_eq_iff`.
-/

namespace Protolink

/-! ## Upper case has no lower-case letters -/

namespace Text

theorem isLower_iff {c : Char} : c.isLower ↔ 97 ≤ c.toNat ∧ c.toNat ≤ 122 := by
  simp [Char.isLower, UInt32.le_iff_toNat_le, ← Char.toNat_val]

/-- A number that is no code point stands for the first character, which is not in lower case. -/
theorem isLower_ofNat {n : Nat} (h : n < 97 ∨ 122 < n) : (Char.ofNat n).isLower = false := by
  rw [Char.ofNat]
  split
  · next valid =>
    refine eq_false_of_ne_true fun lower => ?_
    have bounds : 97 ≤ n ∧ n ≤ 122 := isLower_iff.mp lower
    omega
  · rfl

theorem CaseRun.map?_bounds {run : CaseRun} {n m : Nat} (h : run.map? n = some m) :
    run.target ≤ m ∧ m ≤ run.target + (run.last - run.first) := by
  rw [map?] at h
  split at h
  · next within =>
    obtain rfl := Option.some.inj h
    omega
  · exact absurd h nofun

/-- No run leads to a lower-case letter of ASCII. -/
theorem upperRuns_target : ∀ run ∈ upperRuns,
    run.target + (run.last - run.first) < 97 ∨ 122 < run.target := by
  decide +kernel

theorem upperSequences_image : ∀ entry ∈ upperSequences, ∀ n ∈ entry.2, n < 97 ∨ 122 < n := by
  decide +kernel

theorem isLower_of_mem_upperChar {c d : Char} (h : d ∈ upperChar c) : d.isLower = false := by
  by_cases ascii : c.toNat < 128
  · have raised := forall_ascii (P := fun c => (upperChar c).all fun d => !d.isLower)
      (by decide +kernel) c ascii
    simpa using List.all_eq_true.mp raised d h
  · rw [upperChar] at h
    split at h
    · next ns found =>
      obtain ⟨n, hn, rfl⟩ := List.mem_map.mp h
      obtain ⟨before, after, table, -⟩ := List.lookup_eq_some_iff.mp found
      have entry : (c.toNat, ns) ∈ upperSequences := by
        rw [table]
        exact List.mem_append_right _ List.mem_cons_self
      exact isLower_ofNat (upperSequences_image _ entry n hn)
    · split at h
      · next n found =>
        obtain ⟨run, hrun, image⟩ := List.exists_of_findSome?_eq_some found
        have bounds := run.map?_bounds image
        have target := upperRuns_target run hrun
        rw [List.mem_singleton.mp h]
        exact isLower_ofNat (by omega)
      · -- What is in no table stays, and the lower-case letters are ASCII.
        rw [List.mem_singleton.mp h]
        refine eq_false_of_ne_true fun lower => ?_
        have bounds := isLower_iff.mp lower
        omega

end Text

namespace Name

/-! ## Camel case and the escaped words -/

theorem isLower_of_isGap {c : Char} (h : isGap c) : c.isLower = false := by
  simp_all [isGap, Char.isAlphanum, Char.isAlpha]

theorem isLower_of_mem_tail {gaps : List Char} (h : ∀ g ∈ gaps, isGap g) :
    ∀ c ∈ tail gaps, c.isLower = false := by
  intro c hc
  rw [tail] at hc
  split at hc
  · exact isLower_of_isGap (h c hc)
  · rcases List.mem_append.mp hc with raised | kept
    · exact Text.isLower_of_mem_upperChar raised
    · exact isLower_of_isGap (h c (List.mem_of_mem_drop kept))

/-- After a character that is no letter or digit, camel case has no lower-case letters. -/
theorem pairwise_camelCase (name : String) :
    (camelCase name).toList.Pairwise fun a b => isGap a → b.isLower = false := by
  have gaps : ∀ g ∈ name.toList.rtakeWhile isGap, isGap g := fun g => List.mem_rtakeWhile_imp
  have letters : ∀ a ∈ body (name.toList.rdropWhile isGap), ¬isGap a := by
    intro a ha
    simp [isGap, isAlphanum_of_mem_body a ha]
  rw [camelCase_toList]
  refine List.pairwise_append.mpr ⟨?_, ?_, ?_⟩
  · exact List.pairwise_of_forall_mem_list fun a ha b _ gap => absurd gap (letters a ha)
  · exact List.pairwise_of_forall_mem_list fun a _ b hb _ => isLower_of_mem_tail gaps b hb
  · exact fun a ha b _ gap => absurd gap (letters a ha)

theorem escaped_not_reserved : ∀ word ∈ reserved, "pb_" ++ word ∉ reserved := by
  decide +kernel

/-- The underscore of an escaped word is followed by lower-case letters. -/
theorem escaped_not_pairwise : ∀ word ∈ reserved,
    ¬("pb_" ++ word).toList.Pairwise fun a b => isGap a → b.isLower = false := by
  decide +kernel

theorem camelCase_ne_escaped {word : String} (h : word ∈ reserved) (name : String) :
    camelCase name ≠ "pb_" ++ word :=
  fun same => escaped_not_pairwise word h (same ▸ pairwise_camelCase name)

theorem json_not_reserved (name : String) : json name ∉ reserved := by
  rw [json]
  split
  · next h => exact escaped_not_reserved _ h
  · next h => exact h

theorem camelCase_eq_of_json_eq {x y : String} (h : json x = json y) :
    camelCase x = camelCase y := by
  rw [json, json] at h
  split at h <;> split at h
  · next => exact String.append_right_inj _ |>.mp h
  · next hx _ => exact absurd h.symm (camelCase_ne_escaped hx y)
  · next _ hy => exact absurd h (camelCase_ne_escaped hy x)
  · next => exact h

/-- The name of a field in JSON is no reserved word.  Two fields have one name in JSON just if they
have one name in camel case: what an escape gives is no name in camel case. -/
theorem json_eq_iff (x y : String) :
    json x ∉ reserved ∧ (json x = json y ↔ camelCase x = camelCase y) ∧
    ∀ word ∈ reserved, camelCase x ≠ "pb_" ++ word := by
  refine ⟨json_not_reserved x, ⟨camelCase_eq_of_json_eq, fun same => ?_⟩,
    fun word h => camelCase_ne_escaped h x⟩
  rw [json, json, same]

/-- A field that is called like an escaped word. -/
theorem json_eq_iff_class : json "class" = "pb_class" ∧ json "pb_class" = "pbClass" ∧
    json "pb_class" ≠ json "class" ∧ camelCase "pb_class" ≠ "pb_class" := by
  obtain ⟨-, same, escaped⟩ := json_eq_iff "pb_class" "class"
  exact ⟨by decide +kernel, by decide +kernel, fun h => absurd (same.mp h) (by decide +kernel),
    escaped "class" (by decide)⟩

end Name

end Protolink

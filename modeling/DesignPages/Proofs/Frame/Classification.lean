import DesignPages.Frame.Classification
import DesignPages.Proofs.Frame.Naming
import DesignPages.Proofs.Text.Lowercase
import Mathlib.Data.List.Nodup

/-!
# What decides about a frame

The first group with a keyword in the lower-case name of a frame decides, whatever its box and the
bounds of the areas are, and the other groups with a keyword in the name are reported.  Only the box
decides if there is no keyword.

The case of ASCII letters does not matter.  A name that is continued in both directions keeps the
groups that matched, so that the group that decides can only be replaced by one of higher priority.
-/

namespace DesignPages

/-- If a keyword decided, the groups that matched, the chosen one first. -/
def Classification.matched (c : Classification) : List Category :=
  c.category :: c.shadowed

namespace Classification

/-! ## Keywords in a name -/

theorem occursIn_iff_isInfix {word cs : List Char} : occursIn word cs = true ↔ word <:+: cs := by
  induction cs with
  | nil => rw [occursIn, List.isEmpty_iff, List.infix_nil]
  | cons c cs ih =>
      rw [occursIn, Bool.or_eq_true, List.isPrefixOf_iff_prefix, ih, List.infix_cons_iff]

/-- Some keyword of the group occurs in the name. -/
def Matches (name : List Char) (group : Category × List String) : Prop :=
  ∃ word ∈ group.2, word.toList <:+: name

/-- Some keyword occurs in the name. -/
def HasKeyword (name : List Char) : Prop :=
  ∃ group ∈ groups, Matches name group

/-- The word is the first of the keywords that occurs in the name. -/
structure IsFirstKeyword (name : List Char) (words : List String) (word : String) : Prop where
  occurs : word.toList <:+: name
  first : ∃ skipped more, words = skipped ++ word :: more ∧
    ∀ w ∈ skipped, ¬w.toList <:+: name

theorem IsFirstKeyword.mem {name : List Char} {words : List String} {word : String}
    (h : IsFirstKeyword name words word) : word ∈ words := by
  obtain ⟨skipped, more, rfl, -⟩ := h.first
  simp

section Keyword

variable {name : List Char} {group : Category × List String}

theorem keyword?_eq_none_iff : keyword? name group = none ↔ ¬Matches name group := by
  simp [keyword?, Matches, occursIn_iff_isInfix]

theorem keyword?_eq_some_iff {hit : Category × String} :
    keyword? name group = some hit ↔
      group.1 = hit.1 ∧ IsFirstKeyword name group.2 hit.2 := by
  rw [keyword?, Option.map_eq_some_iff]
  constructor
  · rintro ⟨word, hfind, rfl⟩
    obtain ⟨hoccurs, skipped, more, hwords, hskipped⟩ := List.find?_eq_some_iff_append.mp hfind
    refine ⟨rfl, occursIn_iff_isInfix.mp hoccurs, skipped, more, hwords, ?_⟩
    intro w hw
    rw [← occursIn_iff_isInfix]
    simpa using hskipped w hw
  · rintro ⟨hcategory, hoccurs, skipped, more, hwords, hskipped⟩
    refine ⟨hit.2, List.find?_eq_some_iff_append.mpr
      ⟨occursIn_iff_isInfix.mpr hoccurs, skipped, more, hwords, ?_⟩, Prod.ext hcategory rfl⟩
    intro w hw
    simpa [← occursIn_iff_isInfix] using hskipped w hw

/-- The groups that match keep their order. -/
theorem map_fst_filterMap_keyword?_sublist (gs : List (Category × List String)) :
    ((gs.filterMap (keyword? name)).map Prod.fst).Sublist (gs.map Prod.fst) := by
  induction gs with
  | nil => exact List.Sublist.slnil
  | cons g gs ih =>
      rw [List.map_cons]
      cases hg : keyword? name g with
      | none =>
          rw [List.filterMap_cons_none hg]
          exact ih.cons g.1
      | some hit =>
          rw [List.filterMap_cons_some hg, List.map_cons, ← (keyword?_eq_some_iff.mp hg).1]
          exact ih.cons_cons g.1

theorem mem_map_fst_filterMap_keyword?_iff {gs : List (Category × List String)} {c : Category} :
    c ∈ (gs.filterMap (keyword? name)).map Prod.fst ↔
      ∃ words, (c, words) ∈ gs ∧ Matches name (c, words) := by
  constructor
  · intro hc
    obtain ⟨hit, hhit, rfl⟩ := List.mem_map.mp hc
    obtain ⟨g, hg, hkeyword⟩ := List.mem_filterMap.mp hhit
    obtain ⟨hcategory, hfirst⟩ := keyword?_eq_some_iff.mp hkeyword
    rw [← hcategory]
    exact ⟨g.2, hg, hit.2, hfirst.mem, hfirst.occurs⟩
  · rintro ⟨words, hg, hmatches⟩
    obtain ⟨hit, hhit⟩ := Option.ne_none_iff_exists'.mp
      (mt keyword?_eq_none_iff.mp (not_not_intro hmatches))
    have hcategory : c = hit.1 := (keyword?_eq_some_iff.mp hhit).1
    rw [hcategory]
    exact List.mem_map_of_mem (List.mem_filterMap.mpr ⟨_, hg, hhit⟩)

end Keyword

/-! ## The verdict of the keywords -/

theorem groups_nodup : (groups.map Prod.fst).Nodup := by
  decide

/-- What the keywords in a name decide.  The first group that matches gives the category, and the
first of its keywords that occurs is the signal.  Exactly the other groups that match are shadowed,
each once and in the order of the groups. -/
structure IsVerdict (name : List Char) (c : Classification) : Prop where
  chosen : ∃ done words rest, groups = done ++ (c.category, words) :: rest ∧
    (∀ group ∈ done, ¬Matches name group) ∧
    ∃ word, c.source = .keyword word ∧ IsFirstKeyword name words word
  shadowed_sublist : c.shadowed.Sublist (groups.map Prod.fst)
  shadowed_nodup : c.shadowed.Nodup
  mem_shadowed_iff : ∀ d, d ∈ c.shadowed ↔
    d ≠ c.category ∧ ∃ words, (d, words) ∈ groups ∧ Matches name (d, words)

section Verdict

variable {name : List Char}

theorem hits_eq_nil_iff : hits name = [] ↔ ¬HasKeyword name := by
  simp [hits, HasKeyword, List.filterMap_eq_nil_iff, keyword?_eq_none_iff]

/-- The first hit and the others make a verdict. -/
theorem isVerdict_of_hits {category : Category} {word : String} {others : List (Category × String)}
    (h : hits name = (category, word) :: others) :
    IsVerdict name ⟨category, .keyword word, others.map Prod.fst⟩ := by
  obtain ⟨done, group, rest, hgroups, hdone, hgroup, rfl⟩ := List.filterMap_eq_cons_iff.mp h
  obtain ⟨hcategory, hfirst⟩ := keyword?_eq_some_iff.mp hgroup
  obtain ⟨category', words⟩ := group
  obtain rfl : category' = category := hcategory
  have hunmatched : ∀ g ∈ done, ¬Matches name g := fun g hg =>
    keyword?_eq_none_iff.mp (hdone g hg)
  have hsublist : ((rest.filterMap (keyword? name)).map Prod.fst).Sublist
      (groups.map Prod.fst) := by
    refine (map_fst_filterMap_keyword?_sublist rest).trans (List.Sublist.map _ ?_)
    rw [hgroups]
    exact (List.sublist_cons_self _ _).trans (List.sublist_append_right _ _)
  refine ⟨⟨done, words, rest, hgroups, hunmatched, word, rfl, hfirst⟩, hsublist,
    groups_nodup.sublist hsublist, ?_⟩
  intro d
  rw [mem_map_fst_filterMap_keyword?_iff]
  constructor
  · rintro ⟨words', hmem, hmatches⟩
    refine ⟨?_, words', by rw [hgroups]; simp [hmem], hmatches⟩
    have hnodup := groups_nodup
    rw [hgroups, List.map_append, List.map_cons] at hnodup
    have hnotMem := (List.nodup_cons.mp (List.Nodup.of_append_right hnodup)).1
    rintro rfl
    exact hnotMem (List.mem_map.mpr ⟨_, hmem, rfl⟩)
  · rintro ⟨hne, words', hmem, hmatches⟩
    rw [hgroups, List.mem_append, List.mem_cons] at hmem
    rcases hmem with hmem | hmem | hmem
    · exact absurd hmatches (hunmatched _ hmem)
    · exact absurd (congrArg Prod.fst hmem) hne
    · exact ⟨words', hmem, hmatches⟩

/-- The groups that match are the chosen one and those that it shadows. -/
theorem IsVerdict.mem_matched_iff {c : Classification} (h : IsVerdict name c) (d : Category) :
    d ∈ c.matched ↔ ∃ words, (d, words) ∈ groups ∧ Matches name (d, words) := by
  rw [matched, List.mem_cons, h.mem_shadowed_iff]
  constructor
  · rintro (rfl | ⟨-, hmatches⟩)
    · obtain ⟨done, words, rest, hgroups, -, word, -, hfirst⟩ := h.chosen
      exact ⟨words, by rw [hgroups]; simp, word, hfirst.mem, hfirst.occurs⟩
    · exact hmatches
  · intro hmatches
    by_cases hd : d = c.category
    · exact .inl hd
    · exact .inr ⟨hd, hmatches⟩

theorem eq_of_fst_eq {g h : Category × List String} (hg : g ∈ groups) (hh : h ∈ groups)
    (hfst : g.1 = h.1) : g = h :=
  List.inj_on_of_nodup_map groups_nodup hg hh hfst

/-- A verdict is ambiguous exactly if two groups match. -/
theorem IsVerdict.isAmbiguous_iff {c : Classification} (h : IsVerdict name c) :
    c.isAmbiguous = true ↔
      ∃ g ∈ groups, ∃ g' ∈ groups, g ≠ g' ∧ Matches name g ∧ Matches name g' := by
  rw [isAmbiguous, Bool.not_eq_true', List.isEmpty_eq_false_iff_exists_mem]
  constructor
  · rintro ⟨d, hd⟩
    obtain ⟨hne, words', hmem', hmatches'⟩ := (h.mem_shadowed_iff d).mp hd
    obtain ⟨words, hmem, hmatches⟩ := (h.mem_matched_iff c.category).mp List.mem_cons_self
    refine ⟨_, hmem, _, hmem', ?_, hmatches, hmatches'⟩
    intro heq
    exact hne (congrArg Prod.fst heq).symm
  · rintro ⟨g, hg, g', hg', hne, hmatches, hmatches'⟩
    by_cases hchosen : g.1 = c.category
    · have hne' : g'.1 ≠ c.category := fun heq =>
        hne (eq_of_fst_eq hg hg' (hchosen.trans heq.symm))
      exact ⟨g'.1, (h.mem_shadowed_iff g'.1).mpr ⟨hne', g'.2, hg', hmatches'⟩⟩
    · exact ⟨g.1, (h.mem_shadowed_iff g.1).mpr ⟨hchosen, g.2, hg, hmatches⟩⟩

end Verdict

/-! ## The classification of a name -/

section Name

variable {name : String}

/-- A name with a keyword is classified by its keywords, without a look at box and bounds. -/
theorem exists_verdict (h : HasKeyword (Text.lowercaseChars name.toList)) :
    ∃ c, (∀ bounds box, ofFrame bounds name box = c) ∧
      IsVerdict (Text.lowercaseChars name.toList) c := by
  cases hhits : hits (Text.lowercaseChars name.toList) with
  | nil => exact absurd h (hits_eq_nil_iff.mp hhits)
  | cons hit others =>
      refine ⟨⟨hit.1, .keyword hit.2, others.map Prod.fst⟩, ?_, isVerdict_of_hits hhits⟩
      intro bounds box
      rw [ofFrame, hhits]

/-- A name without a keyword leaves the decision to the box. -/
theorem ofFrame_eq_ofBox (h : ¬HasKeyword (Text.lowercaseChars name.toList)) (bounds : AreaBounds)
    (box : Option Box) : ofFrame bounds name box = ofBox bounds box := by
  rw [ofFrame, hits_eq_nil_iff.mpr h]

theorem ofBox_source_ne_keyword (bounds : AreaBounds) (box : Option Box) (word : String) :
    (ofBox bounds box).source ≠ .keyword word := by
  cases box <;> simp [ofBox]

theorem ofBox_isAmbiguous (bounds : AreaBounds) (box : Option Box) :
    (ofBox bounds box).isAmbiguous = false := by
  cases box <;> rfl

theorem ofBox_category_mem (bounds : AreaBounds) (box : Option Box) :
    (ofBox bounds box).category ∈ [.card, .hero, .plainSection] := by
  cases box with
  | none => simp [ofBox]
  | some b =>
      rw [ofBox, categoryOfArea]
      split_ifs <;> simp

theorem source_eq_keyword_iff (bounds : AreaBounds) (box : Option Box) :
    (∃ word, (ofFrame bounds name box).source = .keyword word) ↔
      HasKeyword (Text.lowercaseChars name.toList) := by
  constructor
  · rintro ⟨word, hsource⟩
    by_contra hno
    rw [ofFrame_eq_ofBox hno] at hsource
    exact ofBox_source_ne_keyword bounds box word hsource
  · intro h
    obtain ⟨c, hframe, hverdict⟩ := exists_verdict h
    obtain ⟨_, _, _, _, _, word, hsource, _⟩ := hverdict.chosen
    exact ⟨word, by rw [hframe, hsource]⟩

/-- The keywords in the lower-case name of a frame decide if there are any.  Otherwise its box does,
so that no category but three is given without a keyword. -/
theorem ofFrame_decision (name : String) :
    (∀ bounds box, (∃ word, (ofFrame bounds name box).source = .keyword word) ↔
      HasKeyword (Text.lowercaseChars name.toList)) ∧
    (HasKeyword (Text.lowercaseChars name.toList) →
      ∃ c, (∀ bounds box, ofFrame bounds name box = c) ∧
        IsVerdict (Text.lowercaseChars name.toList) c) ∧
    (∀ bounds box, (ofFrame bounds name box).isAmbiguous = true ↔
      ∃ g ∈ groups, ∃ g' ∈ groups, g ≠ g' ∧ Matches (Text.lowercaseChars name.toList) g ∧
        Matches (Text.lowercaseChars name.toList) g') ∧
    (¬HasKeyword (Text.lowercaseChars name.toList) → ∀ bounds,
      ofFrame bounds name none = ⟨.card, .default, []⟩ ∧
      ∀ box : Box, ofFrame bounds name (some box) =
        ⟨if bounds.sectionArea < box.area then .plainSection
          else if bounds.heroArea < box.area then .hero
          else .card, .area box.area, []⟩) ∧
    ∀ bounds box, (∀ word, (ofFrame bounds name box).source ≠ .keyword word) →
      (ofFrame bounds name box).category ∈ [.card, .hero, .plainSection] := by
  refine ⟨source_eq_keyword_iff, exists_verdict, ?_, ?_, ?_⟩
  · intro bounds box
    by_cases h : HasKeyword (Text.lowercaseChars name.toList)
    · obtain ⟨c, hframe, hverdict⟩ := exists_verdict h
      rw [hframe, hverdict.isAmbiguous_iff]
    · rw [ofFrame_eq_ofBox h, ofBox_isAmbiguous]
      constructor
      · intro hfalse
        exact absurd hfalse Bool.false_ne_true
      · rintro ⟨g, hg, -, -, -, hmatches, -⟩
        exact absurd ⟨g, hg, hmatches⟩ h
  · intro h bounds
    constructor
    · rw [ofFrame_eq_ofBox h, ofBox]
    · intro box
      rw [ofFrame_eq_ofBox h, ofBox, categoryOfArea]
  · intro bounds box hsource
    have h : ¬HasKeyword (Text.lowercaseChars name.toList) := by
      intro hkeyword
      obtain ⟨word, hword⟩ := (source_eq_keyword_iff bounds box).mpr hkeyword
      exact hsource word hword
    rw [ofFrame_eq_ofBox h]
    exact ofBox_category_mem bounds box

end Name

/-! ## Names that are written or continued differently -/

/-- The place of a category in the order of priority, the highest first. -/
def rank (c : Category) : ℕ :=
  (groups.map Prod.fst).idxOf c

theorem rank_eq_length {c : Category} {words : List String}
    {done rest : List (Category × List String)}
    (h : groups = done ++ (c, words) :: rest) : rank c = done.length := by
  have hnodup := groups_nodup
  rw [h, List.map_append, List.map_cons] at hnodup
  have hnotMem : c ∉ done.map Prod.fst := by
    intro hmem
    exact List.disjoint_of_nodup_append hnodup hmem List.mem_cons_self
  rw [rank, h, List.map_append, List.map_cons, List.idxOf_append_of_notMem hnotMem,
    List.idxOf_cons_self, List.length_map, Nat.add_zero]

/-- Where more groups match, the chosen one has the same or a higher priority. -/
theorem IsVerdict.rank_le {name name' : List Char} {c c' : Classification} (h : IsVerdict name c)
    (h' : IsVerdict name' c') (hmore : ∀ g ∈ groups, Matches name g → Matches name' g) :
    rank c'.category ≤ rank c.category := by
  obtain ⟨done, words, rest, hgroups, -, word, -, hfirst⟩ := h.chosen
  obtain ⟨done', words', rest', hgroups', hdone', -⟩ := h'.chosen
  rw [rank_eq_length hgroups, rank_eq_length hgroups']
  have hmatches : Matches name' (c.category, words) :=
    hmore _ (by rw [hgroups]; simp) ⟨word, hfirst.mem, hfirst.occurs⟩
  rcases List.append_eq_append_iff.mp (hgroups.symm.trans hgroups') with
    ⟨between, hdone, hrest⟩ | ⟨between, hdone, -⟩
  · cases between with
    | nil => rw [hdone, List.append_nil]
    | cons g between =>
        have hg : (c.category, words) = g := (List.cons.inj hrest).1
        have hmem : (c.category, words) ∈ done' := by
          rw [hdone, hg]
          simp
        exact absurd hmatches (hdone' _ hmem)
  · rw [hdone, List.length_append]
    exact Nat.le_add_right _ _

/-- No keyword has a sigma in it. -/
theorem lacksSigma_keyword : ∀ g ∈ groups, ∀ word ∈ g.2, Text.LacksSigma word.toList := by
  unfold Text.LacksSigma
  decide

theorem Matches.append {name : List Char} {g : Category × List String} (hg : g ∈ groups)
    (h : Matches (Text.lowercaseChars name) g) (front back : List Char) :
    Matches (Text.lowercaseChars (front ++ name ++ back)) g := by
  obtain ⟨word, hword, hoccurs⟩ := h
  exact ⟨word, hword,
    (lacksSigma_keyword g hg word hword).isInfix_lowercaseChars_append hoccurs front back⟩

theorem ofFrame_eq_of_sameIgnoringCase {m n : String} (h : Category.sameIgnoringCase m n = true)
    (bounds : AreaBounds) (box : Option Box) : ofFrame bounds m box = ofFrame bounds n box := by
  have hfold : m.toList.map Char.toLower = n.toList.map Char.toLower := sameIgnoringCase_iff.mp h
  rw [ofFrame, ofFrame, ← Text.lowercaseChars_map_toLower m.toList, hfold,
    Text.lowercaseChars_map_toLower]

/-- A name whose ASCII letters are written in another case is classified the same.  If a keyword in a
name decides, then a keyword decides about the name with more text around it too: one of a group of the
same or a higher priority, and every group that matched still matches. -/
theorem ofFrame_monotone (bounds : AreaBounds) (box : Option Box) :
    (∀ m n, Category.sameIgnoringCase m n = true → ofFrame bounds m box = ofFrame bounds n box) ∧
    ∀ front name back word, (ofFrame bounds name box).source = .keyword word →
      ∃ word' words',
        (ofFrame bounds (front ++ name ++ back) box).source = .keyword word' ∧
        ((ofFrame bounds (front ++ name ++ back) box).category, words') ∈ groups ∧
        word' ∈ words' ∧
        rank (ofFrame bounds (front ++ name ++ back) box).category ≤
          rank (ofFrame bounds name box).category ∧
        ∀ c ∈ (ofFrame bounds name box).matched,
          c ∈ (ofFrame bounds (front ++ name ++ back) box).matched := by
  refine ⟨fun m n h => ofFrame_eq_of_sameIgnoringCase h bounds box, ?_⟩
  intro front name back word hsource
  obtain ⟨g, hg, hmatches⟩ := (source_eq_keyword_iff bounds box).mp ⟨word, hsource⟩
  have hmore : ∀ g ∈ groups, Matches (Text.lowercaseChars name.toList) g →
      Matches (Text.lowercaseChars (front ++ name ++ back).toList) g := by
    intro g hg h
    rw [String.toList_append, String.toList_append]
    exact h.append hg front.toList back.toList
  obtain ⟨c, hframe, hverdict⟩ := exists_verdict ⟨g, hg, hmatches⟩
  obtain ⟨c', hframe', hverdict'⟩ := exists_verdict ⟨g, hg, hmore g hg hmatches⟩
  obtain ⟨done, words', rest, hgroups, -, word', hsource', hfirst⟩ := hverdict'.chosen
  rw [hframe, hframe']
  refine ⟨word', words', hsource', by rw [hgroups]; simp, hfirst.mem, ?_, ?_⟩
  · exact hverdict.rank_le hverdict' hmore
  · intro d hd
    obtain ⟨words, hmem, h⟩ := (hverdict.mem_matched_iff d).mp hd
    exact (hverdict'.mem_matched_iff d).mpr ⟨words, hmem, hmore _ hmem h⟩

/-- A gallery whose name ends in a final sigma is a hero once its name is continued, although the
lower-case form of the short name does not occur in that of the long one. -/
theorem ofFrame_monotone_sigma :
    ofFrame .standard "iMAGE ΑΣ" none = ofFrame .standard "Image ΑΣ" none ∧
    (ofFrame .standard "Image ΑΣ" none).source = .keyword "image" ∧
    ¬Text.lowercaseChars "Image ΑΣ".toList <:+: Text.lowercaseChars "Hero Image ΑΣΑ".toList ∧
    rank (ofFrame .standard "Hero Image ΑΣΑ" none).category ≤ rank .gallery ∧
    .gallery ∈ (ofFrame .standard "Hero Image ΑΣΑ" none).matched := by
  have hsource : (ofFrame .standard "Image ΑΣ" none).source = .keyword "image" := by
    decide +kernel
  have hcategory : (ofFrame .standard "Image ΑΣ" none).category = .gallery := by
    decide +kernel
  have hname : "Hero " ++ "Image ΑΣ" ++ "Α" = "Hero Image ΑΣΑ" := by
    decide +kernel
  obtain ⟨hcase, hcontinued⟩ := ofFrame_monotone .standard none
  obtain ⟨word, words, -, -, -, hrank, hmatched⟩ :=
    hcontinued "Hero " "Image ΑΣ" "Α" "image" hsource
  rw [hname] at hrank hmatched
  rw [hcategory] at hrank
  refine ⟨hcase _ _ (by decide +kernel), hsource, by decide +kernel, hrank, hmatched .gallery ?_⟩
  rw [← hcategory]
  exact List.mem_cons_self

end Classification
end DesignPages

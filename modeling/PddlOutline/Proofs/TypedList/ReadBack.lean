import PddlOutline.Proofs.TypedList.Grouping
import PddlOutline.Proofs.TypedList.Labels

/-!
This module contains that the text of a typed list reads back as the list. There is nothing but
blanks between the names of a type and between types, so the words of the text are the names and
types with a `-` before every type. As no type comes twice, nothing is put together again.
-/

namespace PddlOutline
namespace TypedList

/-! Which words there are in the text of a typed list. -/

def bucketWords (bucket : String × List String) : List String :=
  bucket.2 ++ ["-", bucket.1]

def words : TypedList → List String
  | .flat names => names
  | .grouped types => types.entries.flatMap bucketWords

variable {ts us : List Token} {l : TypedList} {names : List String}

theorem words_names (hnames : ∀ name ∈ names, Text.IsWord name.toList) :
    Text.words (String.intercalate " " names).toList = names.map String.toList := by
  rw [String.toList_intercalate, Text.words_intercalate (by decide) (by decide)]
  induction names with
  | nil => rfl
  | cons name names ih =>
    rw [List.forall_mem_cons] at hnames
    rw [List.map_cons, List.flatMap_cons, hnames.1.words_eq, ih hnames.2, List.singleton_append]

theorem words_bucketText {bucket : String × List String}
    (hnames : ∀ name ∈ bucket.2, Text.IsWord name.toList) (htype : Text.IsWord bucket.1.toList) :
    Text.words (bucketText bucket).toList = (bucketWords bucket).map String.toList := by
  have hseparator : Text.IsWord ['-'] := by decide
  have htext : (bucketText bucket).toList = (String.intercalate " " bucket.2).toList
      ++ ([' '] ++ (['-'] ++ ([' '] ++ bucket.1.toList))) := by
    rw [bucketText, String.toList_append, String.toList_append, List.append_assoc]
    rfl
  rw [htext, Text.words_append_blanks (by decide) (by decide), words_names hnames,
    Text.words_append_blanks (by decide) (by decide), hseparator.words_eq, htype.words_eq,
    bucketWords, List.map_append]
  rfl

theorem words_toText (h : ∀ label ∈ l.labels, Text.IsWord label.toList) :
    Text.words l.toText.toList = l.words.map String.toList := by
  cases l with
  | flat names => exact words_names h
  | grouped types =>
    rw [toText, words, String.toList_intercalate, Text.words_intercalate (by decide) (by decide),
      List.flatMap_map, List.flatMap_map, List.map_flatMap]
    apply List.flatMap_congr
    intro bucket hbucket
    have hlabels : ∀ label ∈ bucket.1 :: bucket.2, Text.IsWord label.toList :=
      fun label hlabel => h label (List.mem_flatMap.mpr ⟨bucket, hbucket, hlabel⟩)
    rw [List.forall_mem_cons] at hlabels
    exact words_bucketText hlabels.2 hlabels.1

/-! Which typed lists are read back from their words. -/

/--
Whether a typed list can be told from what it is written as: each label is a word but `-`, and there
are types unless the list is flat.
-/
structure IsLegible (l : TypedList) : Prop where
  isWord : ∀ label ∈ l.labels, Text.IsWord label.toList
  ne_separator : ∀ label ∈ l.labels, label ≠ "-"
  entries_ne_nil : ∀ types, l = .grouped types → types.entries ≠ []

def bucketGroup (bucket : String × List String) : TypedGroup :=
  ⟨bucket.2.map Token.ofString, some (.ofString bucket.1)⟩

theorem toTokens_bucketGroup (bucket : String × List String) :
    (bucketGroup bucket).toTokens = (bucketWords bucket).map Token.ofString := by
  rw [bucketWords, List.map_append]
  rfl

/--
Groups of different types are not put together.
-/
theorem foldl_addGroup_bucketGroup (types : NameMap (List String)) :
    (types.entries.map bucketGroup).foldl addGroup .empty = types := by
  have hnames : (types.entries.map bucketGroup).map TypedGroup.typeName
      = types.entries.map Prod.fst := by
    rw [List.map_map]
    rfl
  apply NameMap.ext
  rw [foldl_addGroup_eq_collect, NameMap.entries_collect_of_nodup (hnames ▸ types.nodup_keys),
    List.map_map]
  conv_rhs => rw [← List.map_id types.entries]
  apply List.map_congr_left
  rintro ⟨type, names⟩ _
  have hsymbols : (names.map Token.ofString).map Token.symbol = names := by
    rw [List.map_map]
    exact List.map_id names
  exact congrArg (Prod.mk type) hsymbols

theorem not_isSeparator_of_ne {label : String} (h : label ≠ "-") :
    ¬ (Token.ofString label).isSeparator := by
  intro hsep
  exact h (beq_iff_eq.mp hsep)

theorem IsLegible.areSplit {types : NameMap (List String)} (h : IsLegible (.grouped types)) :
    TypedGroup.AreSplit (types.entries.map bucketGroup) := by
  have hlabels : ∀ bucket ∈ types.entries, ∀ label ∈ bucket.1 :: bucket.2,
      ¬ (Token.ofString label).isSeparator := by
    intro bucket hbucket label hlabel
    apply not_isSeparator_of_ne
    exact h.ne_separator label (List.mem_flatMap.mpr ⟨bucket, hbucket, hlabel⟩)
  refine ⟨?_, ?_, ?_⟩
  . intro g hg name hname
    obtain ⟨bucket, hbucket, rfl⟩ := List.mem_map.mp hg
    obtain ⟨label, hlabel, rfl⟩ := List.mem_map.mp hname
    exact hlabels bucket hbucket label (List.mem_cons_of_mem _ hlabel)
  . intro g hg type htype
    obtain ⟨bucket, hbucket, rfl⟩ := List.mem_map.mp hg
    cases htype
    exact hlabels bucket hbucket bucket.1 List.mem_cons_self
  . intro front g rest hgroups htype
    have hg : g ∈ types.entries.map bucketGroup := by simp [hgroups]
    obtain ⟨bucket, _, rfl⟩ := List.mem_map.mp hg
    cases htype

theorem IsLegible.ofTokens_words (h : l.IsLegible) :
    ofTokens (l.words.map Token.ofString) = .ok l := by
  cases l with
  | flat names =>
    have hnone : ∀ t ∈ names.map Token.ofString, ¬ t.isSeparator := by
      intro t ht
      obtain ⟨name, hname, rfl⟩ := List.mem_map.mp ht
      exact not_isSeparator_of_ne (h.ne_separator name hname)
    rw [words, ofTokens, if_neg (by simpa using hnone), List.map_map]
    exact congrArg (Except.ok ∘ flat) (List.map_id names)
  | grouped types =>
    obtain ⟨bucket, hbucket⟩ := List.exists_mem_of_ne_nil _ (h.entries_ne_nil types rfl)
    have hseparator : "-" ∈ (grouped types).words :=
      List.mem_flatMap.mpr ⟨bucket, hbucket, by simp [bucketWords]⟩
    have hsome : ((grouped types).words.map Token.ofString).any Token.isSeparator :=
      List.any_eq_true.mpr ⟨.separator, List.mem_map_of_mem hseparator, rfl⟩
    have hwritten : (types.entries.map bucketGroup).flatMap TypedGroup.toTokens
        = (grouped types).words.map Token.ofString := by
      rw [words, List.flatMap_map, List.map_flatMap]
      exact List.flatMap_congr fun bucket _ => toTokens_bucketGroup bucket
    have hkept := h.areSplit.map_kept
    rw [hwritten] at hkept
    rw [ofTokens, if_pos hsome,
      TypedGroup.ofTokens_of_written h.areSplit (hwritten.trans hkept.symm)]
    exact congrArg (Except.ok ∘ grouped) (foldl_addGroup_bucketGroup types)

/--
It does not matter where the words of the text stand.
-/
theorem IsLegible.ofTokens_toText (h : l.IsLegible)
    (hus : us.map Token.symbol = (Text.words l.toText.toList).map String.ofList) :
    ofTokens us = .ok l := by
  have hwords : us.map Token.symbol = l.words := by
    rw [hus, words_toText h.isWord, List.map_map]
    simp
  have hunlocated : us.map Token.unlocated = l.words.map Token.ofString := by
    rw [← hwords, List.map_map]
    rfl
  have hread := h.ofTokens_words
  rw [← hunlocated, ofTokens_unlocated] at hread
  exact Outcome.mapError_eq_ok.mp hread

/-! Lists that are read are legible. -/

theorem isLegible_of_ofTokens (hts : ∀ t ∈ ts, Text.IsWord t.symbol.toList)
    (h : ofTokens ts = .ok l) : l.IsLegible := by
  obtain ⟨hlabels, _⟩ := mem_labels_of_ofTokens h
  refine ⟨?_, ?_, ?_⟩
  . intro label hlabel
    rcases hlabels label hlabel with rfl | ⟨t, ht, _, rfl⟩
    . decide
    . exact hts t ht
  . intro label hlabel
    rcases hlabels label hlabel with rfl | ⟨t, ht, hsep, rfl⟩
    . decide
    . intro hsymbol
      exact hsep (beq_iff_eq.mpr hsymbol)
  . rintro types rfl hempty
    rw [ofTokens] at h
    split at h
    next hsome =>
      obtain ⟨groups, hgroups, htypes⟩ := Outcome.map_eq_ok.mp h
      cases groups with
      | nil =>
        have hnil := (TypedGroup.written_of_ofTokens hgroups).2
        rw [List.map_eq_nil_iff.mp hnil.symm] at hsome
        cases hsome
      | cons g groups =>
        have hkey : g.typeName ∈ ((g :: groups).foldl addGroup .empty).keys := by
          rw [foldl_addGroup_eq_collect, NameMap.keys_collect, List.mem_eraseDups]
          exact List.mem_cons_self
        cases htypes
        rw [NameMap.keys, hempty] at hkey
        cases hkey
    next => cases h

/--
Read the typed list that is in a text, and write it.
-/
def reformat (cs : List Char) : Except ReadError String :=
  (ofTokens (Fragment.whole cs).tokens).map toText

theorem reformat_toText (h : l.IsLegible) : reformat l.toText.toList = .ok l.toText := by
  rw [reformat, h.ofTokens_toText (Fragment.map_symbol_tokens _)]
  rfl

end TypedList

/--
Whatever words a typed list was read from, the words of its text are read as the same list. What was
written once is written again as it is.
-/
theorem typed_list_reads_back :
    (∀ ts l, (∀ t ∈ ts, Text.IsWord t.symbol.toList) → TypedList.ofTokens ts = .ok l →
      TypedList.ofTokens (Fragment.whole l.toText.toList).tokens = .ok l
        ∧ ∀ us, us.map Token.symbol = (Text.words l.toText.toList).map String.ofList →
          TypedList.ofTokens us = .ok l)
    ∧ ∀ cs text, TypedList.reformat cs = .ok text → TypedList.reformat text.toList = .ok text := by
  constructor
  . intro ts l hts h
    have hlegible := TypedList.isLegible_of_ofTokens hts h
    exact ⟨hlegible.ofTokens_toText (Fragment.map_symbol_tokens _),
      fun us hus => hlegible.ofTokens_toText hus⟩
  . intro cs text h
    obtain ⟨l, hl, rfl⟩ := Outcome.map_eq_ok.mp h
    exact TypedList.reformat_toText
      (TypedList.isLegible_of_ofTokens (fun _ => Fragment.isWord_of_mem_tokens) hl)

/--
A type without names, a type that comes again, and a name without a type.
-/
theorem typed_list_reads_back_again :
    let ts := ["-", "v", "a", "-", "t", "b", "-", "u", "c", "-", "t", "d"].map Token.ofString
    let l : TypedList :=
      .grouped ⟨[("v", []), ("t", ["a", "c"]), ("u", ["b"]), ("object", ["d"])], by decide⟩
    let text := " - v  a c - t  b - u  d - object"
    (∀ t ∈ ts, Text.IsWord t.symbol.toList)
      ∧ TypedList.ofTokens ts = .ok l
      ∧ l.toText = text
      ∧ TypedList.ofTokens (Fragment.whole text.toList).tokens = .ok l
      ∧ TypedList.reformat "- v a - t b - u c - t d".toList = .ok text
      ∧ TypedList.reformat text.toList = .ok text := by
  intro ts l text
  have hts : ∀ t ∈ ts, Text.IsWord t.symbol.toList := by
    decide +kernel
  have hok : TypedList.ofTokens ts = .ok l := by
    decide +kernel
  have htext : l.toText = text := by
    decide +kernel
  have hreformat : TypedList.reformat "- v a - t b - u c - t d".toList = .ok text := by
    decide +kernel
  have hread := (typed_list_reads_back.1 ts l hts hok).1
  rw [htext] at hread
  exact ⟨hts, hok, htext, hread, hreformat, typed_list_reads_back.2 _ _ hreformat⟩

end PddlOutline

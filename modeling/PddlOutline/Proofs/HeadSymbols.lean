import PddlOutline.Proofs.ActionName
import PddlOutline.Proofs.LetterCase.Section
import PddlOutline.Proofs.Locality
import PddlOutline.Proofs.Success

/-!
This module contains how a section is recognized: by the beginning of its head symbol. Whatever else
belongs to the symbol is passed over in a section that is read once, and taken for the first word
behind the keyword in an action.
-/

namespace PddlOutline

/--
Whether a group begins with the keyword, followed by the rest `more` of the head symbol and by all
that is `behind` the symbol.
-/
structure Keyword.Heads (k : Keyword) (more behind : List Char) (t : Forest) : Prop where
  begins : ∃ tag, k.Tag tag ∧ t.enclosed = tag ++ (more ++ behind)
  more : ∀ c ∈ more, Text.isAtom c
  behind : ∀ c ∈ behind.head?, ¬ Text.isAtom c

theorem Text.isPlain_of_isAtom {cs : List Char} (h : ∀ c ∈ cs, isAtom c) : IsPlain cs := by
  intro c hc
  have hatom := h c hc
  simp only [isAtom, Bool.and_eq_true, bne_iff_ne] at hatom
  exact ⟨hatom.1.2, hatom.2⟩

theorem Keyword.Tag.exists_tail {k : Keyword} {tag : List Char} (h : k.Tag tag)
    (hk : k.form = .block) : ∃ tail, tag = '(' :: tail ∧ tail ≠ [] ∧ ∀ c ∈ tail, Text.isAtom c := by
  obtain ⟨tail, rfl⟩ := h.eq_cons hk
  have hatoms : k.chars.tail ≠ [] ∧ ∀ d ∈ k.chars.tail.map Char.toLower, Text.isAtom d := by
    cases k <;> decide
  have htail : k.chars.tail.map Char.toLower = tail.map Char.toLower := by
    rw [Tag, Text.sameLetters, beq_iff_eq] at h
    rw [List.map_tail, h]
    rfl
  refine ⟨tail, rfl, ?_, ?_⟩
  . rintro rfl
    exact hatoms.1 (List.map_eq_nil_iff.mp htail)
  . intro c hc
    rw [← Text.isAtom_toLower]
    apply hatoms.2
    rw [htail]
    exact List.mem_map_of_mem hc

namespace Keyword.Heads

variable {k : Keyword} {more behind : List Char} {t u : Forest}

/--
The head symbol is the first word of the group and no part of a group in it.
-/
theorem exists_behind (h : k.Heads more behind t) (hk : k.form = .block) :
    ∃ v : Forest, behind = v.chars ++ [')'] ∧ t.trees = v.trees
      ∧ (Text.words t.chars).drop 1 = Text.words (v.chars.dropWhile (!Text.isBlank ·)) := by
  obtain ⟨tag, htag, henclosed⟩ := h.begins
  obtain ⟨tail, rfl, hne, htail⟩ := htag.exists_tail hk
  have hatoms : ∀ c ∈ tail ++ more, Text.isAtom c := by
    intro c hc
    exact (List.mem_append.mp hc).elim (htail c) (h.more c)
  have hplain := Text.isPlain_of_isAtom hatoms
  have hinside : t.chars ++ ')' :: [] = (tail ++ more) ++ behind := by
    rw [List.append_assoc]
    exact (List.cons.inj henclosed).2
  -- There is no parenthesis in the head symbol, so what is behind it goes on as a forest.
  obtain ⟨v, rfl, hbehind⟩ := Forest.exists_prepend hplain hinside
  refine ⟨v, hbehind, Forest.trees_prepend _ _ v, ?_⟩
  have hsolid : ∀ c ∈ tail ++ more, ¬ Text.isBlank c := by
    intro c hc hblank
    have hatom := hatoms c hc
    simp [Text.isAtom, hblank] at hatom
  rw [Forest.chars_prepend, Text.drop_words_append (by simp [hne]) hsolid]

theorem contents_eq {more' : List Char} (h : k.Heads more behind t)
    (h' : k.Heads more' behind u) (hk : k.form = .block) :
    k.form.words t = k.form.words u ∧ t.trees = u.trees := by
  obtain ⟨v, hv, htrees, hwords⟩ := h.exists_behind hk
  obtain ⟨v', hv', htrees', hwords'⟩ := h'.exists_behind hk
  obtain ⟨rfl, _⟩ := Forest.eq_of_closed (hv.symm.trans hv')
  rw [hk]
  exact ⟨hwords.trans hwords'.symm, htrees.trans htrees'.symm⟩

theorem exists_alone (h : k.Heads more behind t) (hk : k.form = .block) :
    ∃ u : Forest, u.enclosed = k.chars ++ behind ∧ k.Heads [] behind u := by
  obtain ⟨v, hv, _⟩ := h.exists_behind hk
  obtain ⟨tail, hchars, _, htail⟩ := (Tag.refl k).exists_tail hk
  have hplain := Text.isPlain_of_isAtom htail
  have henclosed : (Forest.prepend tail hplain v).enclosed = k.chars ++ behind := by
    rw [Forest.enclosed, Forest.chars_prepend, hchars, hv, List.cons_append, List.append_assoc]
  exact ⟨_, henclosed, ⟨_, .refl k, henclosed⟩, by simp, h.behind⟩

end Keyword.Heads

namespace Fragment

variable {f : Fragment} {k : Keyword} {offset : Nat} {t : Forest}

theorem exists_heads (hk : k.form = .block) (ho : offset ∈ f.places k) (h : f.GroupAt offset t) :
    ∃ more behind, k.Heads more behind t := by
  obtain ⟨front, rest, tag, behind, u, hchars, hoffset, henclosed, htag, _⟩ :=
    Section.exists_of_delimit_block hk ho (Section.delimit_of_groupAt h)
  obtain rfl := h.unique ⟨front, rest, hchars, hoffset⟩
  refine ⟨behind.takeWhile Text.isAtom, behind.dropWhile Text.isAtom, ⟨tag, htag, ?_⟩, ?_, ?_⟩
  . rw [List.takeWhile_append_dropWhile, henclosed]
  . exact List.all_eq_true.mp List.all_takeWhile
  . intro c hc
    have hstop := List.head?_dropWhile_not Text.isAtom behind
    rw [hc] at hstop
    simpa using hstop

theorem head?_places_of_tag {tag rest : List Char} (h : k.Tag tag) (hchars : f.chars = tag ++ rest) :
    (f.places k).head? = some f.start := by
  obtain ⟨c, tag, rfl⟩ := List.exists_cons_of_ne_nil h.ne_nil
  have hstart : Text.startsWith k.chars (c :: (tag ++ rest)) :=
    Text.startsWith_iff.mpr ⟨c :: tag, rest, rfl, h⟩
  rw [places, hchars, List.cons_append, Text.occurrences, if_pos hstart]
  rfl

end Fragment

/-! Sections that are read once. -/

namespace Section

variable {k : Keyword} {α : Type} {read : Section → Except ReadError α}

theorem readD_alone (hk : k.form = .block) (hread : ReadsContents k read) (absent : α)
    {f : Fragment} {offset : Nat} {t : Forest} {more behind : List Char}
    (ho : (f.places k).head? = some offset) (ht : f.GroupAt offset t)
    (hheads : k.Heads more behind t) :
    (readD f k absent read).mapError ReadError.unlocated
      =
    (readD (.whole (k.chars ++ behind)) k absent read).mapError ReadError.unlocated := by
  obtain ⟨u, hu, hheads'⟩ := hheads.exists_alone hk
  have ho' : ((Fragment.whole (k.chars ++ behind)).places k).head? = some 0 :=
    Fragment.head?_places_of_tag (.refl k) rfl
  have ht' : (Fragment.whole (k.chars ++ behind)).GroupAt 0 u :=
    ⟨[], [], by simp [Fragment.whole, hu], rfl⟩
  obtain ⟨answer, hanswer⟩ := hread
  have hfound : ∀ {g : Fragment} {i : Nat} {v : Forest}, (g.places k).head? = some i →
      g.GroupAt i v →
      (readD g k absent read).mapError ReadError.unlocated = answer (k.form.words v) v.trees := by
    intro g i v hi hv
    rw [readD, first_of_groupAt hk hi hv]
    exact hanswer _ v rfl (holds_of_groupAt hv k)
  obtain ⟨hwords, htrees⟩ := hheads.contents_eq hheads' hk
  rw [hfound ho ht, hfound ho' ht', hwords, htrees]

end Section

/--
What becomes of the section of a keyword: nothing else than the first group that begins with the
keyword is read, and it is read as if its head symbol were the keyword.
-/
inductive Fragment.ReadsHeaded (f : Fragment) (k : Keyword) {α : Type} (absent : α)
    (read : Fragment → Except ReadError α) : Prop
  | absent (h : f.places k = []) (hread : read f = .ok absent)
  | unclosed {offset : Nat} (ho : (f.places k).head? = some offset)
    (hopen : ∀ t, ¬ f.GroupAt offset t)
    (hread : read f = .error (.malformed .unclosed (some ⟨offset, offset + 1⟩)))
  | group {offset : Nat} {t : Forest} {more behind : List Char}
    (ho : (f.places k).head? = some offset) (ht : f.GroupAt offset t)
    (hheads : k.Heads more behind t)
    (hread : (read f).mapError ReadError.unlocated
      = (read (.whole (k.chars ++ behind))).mapError ReadError.unlocated)

theorem Section.readsHeaded {k : Keyword} (hk : k.form = .block) {α : Type}
    {read : Section → Except ReadError α} (hread : ReadsContents k read) (absent : α)
    (f : Fragment) : f.ReadsHeaded k absent (readD · k absent read) := by
  cases ho : (f.places k).head? with
  | none =>
    have hplaces := List.head?_eq_none_iff.mp ho
    apply Fragment.ReadsHeaded.absent hplaces
    rw [readD, first_of_nil hplaces]
    rfl
  | some offset =>
    by_cases hclosed : ∃ t, f.GroupAt offset t
    . obtain ⟨t, ht⟩ := hclosed
      obtain ⟨more, behind, hheads⟩ := Fragment.exists_heads hk (List.mem_of_mem_head? ho) ht
      exact .group ho ht hheads (readD_alone hk hread absent ho ht hheads)
    . have hopen := not_exists.mp hclosed
      apply Fragment.ReadsHeaded.unclosed ho hopen
      rw [readD, first_of_forall_not_groupAt hk ho hopen]
      rfl

/-! Actions. -/

namespace Action

variable {tag rest : List Char}

theorem occurrences_of_tag (h : Keyword.action.Tag tag) {k : Keyword} (hk : k.form = .value)
    (offset : Nat) : Text.occurrences k.chars offset (tag ++ rest)
      = Text.occurrences k.chars (offset + Text.byteSize tag) rest := by
  -- In lower case the tag is the keyword itself, in which no keyword of a value starts.
  have hlower : Text.lower tag = Keyword.action.chars := by
    rw [Keyword.Tag, Text.sameLetters, beq_iff_eq] at h
    exact h.symm
  have hskip : ∀ cs, Text.occurrences k.chars offset (Keyword.action.chars ++ cs)
      = Text.occurrences k.chars (offset + Keyword.action.size) cs := by
    intro cs
    cases k with
    | parameters => rfl
    | precondition => rfl
    | effect => rfl
    | _ => cases hk
  rw [← Text.occurrences_lower, Text.lower_append, hlower, hskip, Text.occurrences_lower,
    h.byteSize_eq]

theorem name?_spaced (h : Keyword.action.Tag tag) :
    name? (tag ++ rest) = name? (Keyword.action.chars ++ ' ' :: rest) := by
  have hspace : ∀ c ∈ [' '], Text.isBlank c := by decide
  have hspaced := name?_of_gap (.refl .action) hspace rest
  rw [if_neg (by decide)] at hspaced
  rw [name?_of_tag h, ← hspaced]
  rfl

theorem occurrences_spaced {k : Keyword} (hk : k.form = .value) (offset : Nat) :
    Text.occurrences k.chars offset ((Keyword.action.chars ++ [' ']) ++ rest)
      =
    Text.occurrences k.chars (offset + Text.byteSize (Keyword.action.chars ++ [' '])) rest := by
  rw [List.append_assoc, occurrences_of_tag (.refl .action) hk, List.singleton_append,
    Keyword.occurrences_space, Text.byteSize_append, ← Nat.add_assoc]
  rfl

theorem exists_spaced {t : Forest} (h : Keyword.action.Tag tag) (ht : t.enclosed = tag ++ rest) :
    ∃ u : Forest, u.enclosed = (Keyword.action.chars ++ [' ']) ++ rest := by
  obtain ⟨tail, rfl, _, htail⟩ := h.exists_tail rfl
  have hplain := Text.isPlain_of_isAtom htail
  have hinside : t.chars ++ ')' :: [] = tail ++ rest := (List.cons.inj ht).2
  obtain ⟨v, _, rfl⟩ := Forest.exists_prepend hplain hinside
  have hspaced : Text.IsPlain ":action ".toList := by decide
  refine ⟨.prepend _ hspaced v, ?_⟩
  rw [Forest.enclosed, Forest.chars_prepend, List.append_assoc]
  rfl

theorem read_spaced {f : Fragment} {offset : Nat} {t : Forest} (ht : f.GroupAt offset t)
    (h : Keyword.action.Tag tag) (hchars : t.enclosed = tag ++ rest) :
    (read f offset).mapError ReadError.unlocated
      =
    (read (.whole (Keyword.action.chars ++ ' ' :: rest)) 0).mapError ReadError.unlocated := by
  obtain ⟨u, hu⟩ := exists_spaced h hchars
  have hspaced : u.enclosed = Keyword.action.chars ++ ' ' :: rest := by
    rw [hu, List.append_assoc]
    rfl
  have hu' : (Fragment.whole (Keyword.action.chars ++ ' ' :: rest)).GroupAt 0 u :=
    ⟨[], [], by simp [Fragment.whole, hspaced], rfl⟩
  rw [read_of_groupAt ht, read_of_groupAt hu']
  apply ofFragment_congr
  . show name? t.enclosed = name? u.enclosed
    rw [hchars, hspaced, name?_spaced h]
  . intro k hk
    exact Section.first_alike_of_lead hk hchars hu (occurrences_of_tag h hk) (occurrences_spaced hk)
      offset 0

/--
What becomes of a group that begins with the keyword of an action: it is read as an action, and what
else belongs to its head symbol is read as the first word behind the keyword.
-/
inductive ReadsHeaded (f : Fragment) (offset : Nat) : Prop
  | unclosed (hopen : ∀ t, ¬ f.GroupAt offset t)
    (hread : read f offset = .error (.malformed .unclosed (some ⟨offset, offset + 1⟩)))
  | group {t : Forest} {more behind : List Char} (ht : f.GroupAt offset t)
    (hheads : Keyword.action.Heads more behind t)
    (hread : (read f offset).mapError ReadError.unlocated
      = (read (.whole (Keyword.action.chars ++ ' ' :: (more ++ behind))) 0).mapError
        ReadError.unlocated)

theorem readsHeaded {f : Fragment} {offset : Nat} (ho : offset ∈ f.places .action) :
    ReadsHeaded f offset := by
  by_cases hclosed : ∃ t, f.GroupAt offset t
  . obtain ⟨t, ht⟩ := hclosed
    obtain ⟨more, behind, hheads⟩ := Fragment.exists_heads rfl ho ht
    obtain ⟨tag, htag, hchars⟩ := hheads.begins
    exact .group ht hheads (read_spaced ht htag hchars)
  . have hopen := not_exists.mp hclosed
    exact .unclosed hopen (read_of_forall_not_groupAt ho hopen)

end Action

/--
Sections are recognized by the beginning of their head symbols, and a document is read from nothing
but its header and these sections.
-/
theorem sections_read_headed (d : Document) :
    d.fragment.ReadsHeaded .requirements [] Domain.readRequirements
    ∧ (∀ k ∈ [Keyword.types, .constants],
      d.fragment.ReadsHeaded k .empty (Domain.readTypedList · k))
    ∧ d.fragment.ReadsHeaded .predicates [] Domain.readPredicates
    ∧ (∀ offset ∈ d.fragment.places .action, Action.ReadsHeaded d.fragment offset)
    ∧ d.fragment.ReadsHeaded .objects .empty Problem.readObjects
    ∧ (∀ k ∈ [Keyword.init, .goal],
      d.fragment.ReadsHeaded k [] (Problem.readExpressions · k))
    ∧ (∀ domain, (Domain.read d).outcome = .ok domain ↔ domain.IsReadFrom d)
    ∧ ∀ problem, (Problem.read d).outcome = .ok problem ↔ problem.IsReadFrom d := by
  refine ⟨?_, ?_, ?_, ?_, ?_, ?_, fun _ => Domain.read_eq_ok, fun _ => Problem.read_eq_ok⟩
  . exact Section.readsHeaded rfl (Section.readsContents_symbols _) [] _
  . have hform : ∀ k ∈ [Keyword.types, .constants], k.form = .block := by decide
    intro k hk
    exact Section.readsHeaded (hform k hk) (Section.readsContents_typedList k) _ _
  . exact Section.readsHeaded rfl (Section.readsContents_parts _) [] _
  . intro offset ho
    exact Action.readsHeaded ho
  . exact Section.readsHeaded rfl (Section.readsContents_typedList _) _ _
  . have hform : ∀ k ∈ [Keyword.init, .goal], k.form = .block := by decide
    intro k hk
    exact Section.readsHeaded (hform k hk) (Section.readsContents_expressions (hform k hk)) [] _

theorem sections_read_headed_typeset :
    let d := Document.ofString
      "(define (domain d) (:typeset a) (:types b)
        (:actions :parameters () :precondition (p) :effect (q)))"
    let domain : Domain := ⟨"d", [], .flat ["a"], .empty, [],
      NameMap.empty.insert "s" ⟨"s", .empty, ["(p)"], ["(q)"]⟩, .empty⟩
    domain.IsReadFrom d ∧ d.fragment.ReadsHeaded .types .empty (Domain.readTypedList · .types)
      ∧ d.fragment.places .action = [44] ∧ Action.ReadsHeaded d.fragment 44 := by
  intro d domain
  have hread : (Domain.read d).outcome = .ok domain := by
    decide +kernel
  have hplaces : d.fragment.places .action = [44] := by
    decide +kernel
  obtain ⟨_, htypes, _, hactions, _, _, hdomain, _⟩ := sections_read_headed d
  exact ⟨(hdomain domain).mp hread, htypes .types (by decide), hplaces,
    hactions 44 (by rw [hplaces]; decide)⟩

/--
Longer head symbols are read as the sections whose keywords they begin with and hide the sections
that follow.
-/
theorem longer_heads_hide :
    let problem := Document.ofString
      "(define (problem p) (:domain d) (:initial (q)) (:goals (r)) (:init (a)) (:goal (b)))"
    let domain := Document.ofString
      "(define (domain d) (:actions m :parameters () :precondition (p) :effect (q)))"
    (Problem.read problem).outcome = .ok ⟨"p", "d", .empty, ["(q)"], ["(r)"]⟩
      ∧ (Domain.read domain).outcome = .ok ⟨"d", [], .empty, .empty, [],
        NameMap.empty.insert "m" ⟨"m", .empty, ["(p)"], ["(q)"]⟩, .empty⟩ := by
  decide +kernel

end PddlOutline

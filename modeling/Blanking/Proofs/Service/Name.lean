import Mathlib.Data.List.Nodup
import Blanking.Proofs.Service.Set
import Blanking.Proofs.Text.Blank
import Blanking.Service.Name

/-! # Lists of service names

A list selects what its words stand for together, or its first word without a meaning is reported.
So lists may be joined, the order, the case and the number of their words do not matter, and a set
that is displayed is selected again. -/

namespace Blanking

namespace ServiceSet

/-! ## Words -/

/-- The words of a list: its pieces between commas without white space at their ends, except for
those of which nothing is left. -/
def words (text : String) : List (List Char) :=
  ((text.toList.splitOn ',').map Text.trim).filter (· ≠ [])

/-- Every name that a word can be, with the services that it stands for. -/
def vocabulary : List (String × ServiceSet) :=
  groups ++ Service.all.map fun service => (service.name, singleton service)

/-- Whether a word is a name of these services, in any case of its letters. -/
def StandsFor (word : List Char) (set : ServiceSet) : Prop :=
  ∃ entry ∈ vocabulary, Text.lower word = Text.lower entry.1.toList ∧ entry.2 = set

/-- Whether a word is a name, in any case of its letters. -/
def Named (word : List Char) : Prop :=
  ∃ entry ∈ vocabulary, Text.lower word = Text.lower entry.1.toList

instance : DecidablePred Named := fun _ => inferInstanceAs (Decidable (∃ _ ∈ _, _))

/-- Whether a set has the services that words stand for, and nothing else. -/
structure Gathers (words : List (List Char)) (set : ServiceSet) : Prop where
  isKnown : set.IsKnown
  contains_iff : ∀ service, set.contains service = true ↔
    ∃ word ∈ words, ∃ part, StandsFor word part ∧ part.contains service = true

theorem names_eq_words (text : String) : names text.toList = words text := by
  rw [names, words, Text.split_eq_splitOn]
  congr 1
  funext word
  cases word <;> rfl

theorem trim_of_mem_words {text : String} {word : List Char} (h : word ∈ words text) :
    Text.trim word = word := by
  obtain ⟨piece, -, rfl⟩ := List.mem_map.mp (List.mem_filter.mp h).1
  exact Text.trim_trim piece

/-- The words of two lists with a comma between them are those of the one and of the other. -/
theorem words_append (a b : String) : words (a ++ "," ++ b) = words a ++ words b := by
  have hcomma : (a ++ "," ++ b).toList = a.toList ++ ',' :: b.toList := by simp
  rw [words, hcomma, List.splitOn_append_cons_self, List.map_append, List.filter_append, words,
    words]

theorem words_space_append (text : String) : words (" " ++ text) = words text := by
  have hspace : (" " ++ text).toList = ' ' :: text.toList := by simp
  have hne : ¬ (' ' == ',') = true := by decide
  rw [words, words, hspace, List.splitOn_cons_eq_if_modifyHead, if_neg hne]
  cases hsplit : text.toList.splitOn ',' with
  | nil => exact absurd hsplit (List.splitOn_ne_nil ',' text.toList)
  | cons piece pieces =>
      rw [List.modifyHead_cons, List.map_cons, Text.trim_cons_of_blank (by decide), List.map_cons]

/-! ## Names -/

theorem nodup_vocabulary : (vocabulary.map fun entry => entry.1.toList).Nodup := by
  decide +kernel

theorem lower_of_mem_vocabulary {entry : String × ServiceSet} (h : entry ∈ vocabulary) :
    Text.lower entry.1.toList = entry.1.toList := by
  have hall : ∀ entry ∈ vocabulary, Text.lower entry.1.toList = entry.1.toList := by
    decide +kernel
  exact hall entry h

theorem isKnown_of_mem_vocabulary {entry : String × ServiceSet} (h : entry ∈ vocabulary) :
    entry.2.IsKnown := by
  have hall : ∀ entry ∈ vocabulary, ofList entry.2.toList = entry.2 := by decide +kernel
  rw [← hall entry h]
  exact isKnown_ofList _

theorem named_iff {word : List Char} : Named word ↔ ∃ set, StandsFor word set := by
  constructor
  · rintro ⟨entry, hentry, hword⟩
    exact ⟨entry.2, entry, hentry, hword, rfl⟩
  · rintro ⟨_, entry, hentry, hword, rfl⟩
    exact ⟨entry, hentry, hword⟩

/-- The names differ, so a word stands for one set only. -/
theorem StandsFor.unique {word : List Char} {a b : ServiceSet} (ha : StandsFor word a)
    (hb : StandsFor word b) : a = b := by
  obtain ⟨entry, hentry, hword, rfl⟩ := ha
  obtain ⟨entry', hentry', hword', rfl⟩ := hb
  rw [hword, lower_of_mem_vocabulary hentry, lower_of_mem_vocabulary hentry'] at hword'
  rw [List.inj_on_of_nodup_map nodup_vocabulary hentry hentry' hword']

/-- Groups are looked up before services, as they come in the vocabulary. -/
theorem ofName_eq_find? {word : List Char} (htrim : Text.trim word = word) :
    ofName word =
      match vocabulary.find? fun entry => entry.1.toList = Text.lower word with
      | some entry => .ok entry.2
      | none => .error ⟨String.ofList word⟩ := by
  rw [ofName, ofGroup?, vocabulary, List.find?_append, Service.ofName?, htrim, List.find?_map]
  cases groups.find? fun group => group.1.toList = Text.lower word with
  | some group => rfl
  | none =>
      have hservice : (fun entry : String × ServiceSet =>
          decide (entry.1.toList = Text.lower word)) ∘
            (fun service : Service => (service.name, singleton service)) =
          fun service => decide (service.name.toList = Text.lower word) := rfl
      rw [hservice]
      cases Service.all.find? fun service => service.name.toList = Text.lower word <;> rfl

theorem standsFor_of_find? {word : List Char} {entry : String × ServiceSet}
    (h : (vocabulary.find? fun entry => entry.1.toList = Text.lower word) = some entry) :
    StandsFor word entry.2 := by
  have hmem := List.mem_of_find?_eq_some h
  have hname : entry.1.toList = Text.lower word := by simpa using List.find?_some h
  exact ⟨entry, hmem, by rw [lower_of_mem_vocabulary hmem, hname], rfl⟩

theorem ofName_eq_ok {word : List Char} (htrim : Text.trim word = word) {set : ServiceSet}
    (h : StandsFor word set) : ofName word = .ok set := by
  rw [ofName_eq_find? htrim]
  cases hfind : vocabulary.find? fun entry => entry.1.toList = Text.lower word with
  | some entry => exact congrArg Except.ok ((standsFor_of_find? hfind).unique h)
  | none =>
      obtain ⟨entry, hentry, hword, -⟩ := h
      rw [lower_of_mem_vocabulary hentry] at hword
      exact absurd (decide_eq_true hword.symm) (List.find?_eq_none.mp hfind entry hentry)

theorem ofName_eq_error {word : List Char} (htrim : Text.trim word = word) (h : ¬ Named word) :
    ofName word = .error ⟨String.ofList word⟩ := by
  rw [ofName_eq_find? htrim]
  cases hfind : vocabulary.find? fun entry => entry.1.toList = Text.lower word with
  | some entry => exact absurd (named_iff.mpr ⟨_, standsFor_of_find? hfind⟩) h
  | none => rfl

/-! ## Lists of names -/

theorem union_assoc (a b c : ServiceSet) : a ∪ b ∪ c = a ∪ (b ∪ c) :=
  congrArg ServiceSet.mk (UInt32.or_assoc a.bits b.bits c.bits)

theorem empty_union (set : ServiceSet) : empty ∪ set = set :=
  congrArg ServiceSet.mk UInt32.zero_or

/-- Names behind others are looked up only if those have a meaning. -/
theorem ofNames_append (front back : List (List Char)) :
    ofNames (front ++ back) = do
      let left ← ofNames front
      let right ← ofNames back
      return left ∪ right := by
  induction front with
  | nil =>
      cases hback : ofNames back with
      | error unknown => exact hback
      | ok right => exact hback.trans (congrArg Except.ok (empty_union right).symm)
  | cons word rest ih =>
      rw [List.cons_append, ofNames, ofNames, ih]
      cases ofName word with
      | error unknown => rfl
      | ok set =>
          cases ofNames rest with
          | error unknown => rfl
          | ok left =>
              cases ofNames back with
              | error unknown => rfl
              | ok right => exact congrArg Except.ok (union_assoc set left right).symm

theorem Gathers.unique {words : List (List Char)} {a b : ServiceSet} (ha : Gathers words a)
    (hb : Gathers words b) : a = b := by
  refine ha.isKnown.ext hb.isKnown fun service => ?_
  rw [Bool.eq_iff_iff, ha.contains_iff, hb.contains_iff]

theorem gathers_nil : Gathers [] empty where
  isKnown := isKnown_empty
  contains_iff service := by simp

theorem Gathers.cons {word : List Char} {words : List (List Char)} {set others : ServiceSet}
    (hword : StandsFor word set) (hothers : Gathers words others) :
    Gathers (word :: words) (set ∪ others) where
  isKnown := by
    obtain ⟨entry, hentry, -, rfl⟩ := hword
    exact (isKnown_of_mem_vocabulary hentry).union hothers.isKnown
  contains_iff service := by
    rw [contains_union, Bool.or_eq_true, hothers.contains_iff, List.exists_mem_cons_iff]
    refine or_congr_left ⟨fun hmem => ⟨set, hword, hmem⟩, ?_⟩
    rintro ⟨part, hpart, hmem⟩
    rwa [hword.unique hpart]

/-- Names are looked up one after the other, up to one without a meaning. -/
theorem ofNames_cases {words : List (List Char)} (htrim : ∀ word ∈ words, Text.trim word = word) :
    (∃ set, ofNames words = .ok set ∧ (∀ word ∈ words, Named word) ∧ Gathers words set) ∨
      ∃ word, ofNames words = .error ⟨String.ofList word⟩ ∧
        (words.find? fun word => ¬ Named word) = some word := by
  induction words with
  | nil => exact Or.inl ⟨empty, rfl, fun _ hmem => absurd hmem List.not_mem_nil, gathers_nil⟩
  | cons word rest ih =>
      have hfirst := htrim word List.mem_cons_self
      by_cases hnamed : Named word
      · obtain ⟨set, hset⟩ := named_iff.mp hnamed
        rw [ofNames, ofName_eq_ok hfirst hset, List.find?_cons_of_neg (by simpa using hnamed)]
        rcases ih fun word hword => htrim word (List.mem_cons_of_mem _ hword) with
          ⟨others, hothers, hrest, hgathers⟩ | ⟨stranger, hothers, hfind⟩
        · exact Or.inl ⟨set ∪ others, by rw [hothers]; rfl,
            List.forall_mem_cons.mpr ⟨hnamed, hrest⟩, hgathers.cons hset⟩
        · exact Or.inr ⟨stranger, by rw [hothers]; rfl, hfind⟩
      · rw [ofNames, ofName_eq_error hfirst hnamed, List.find?_cons_of_pos (by simpa using hnamed)]
        exact Or.inr ⟨word, rfl, rfl⟩

theorem parse_eq_ofNames (text : String) : parse text = ofNames (words text) := by
  rw [parse, names_eq_words]

theorem parse_cases (text : String) :
    (∃ set, parse text = .ok set ∧ (∀ word ∈ words text, Named word) ∧
        Gathers (words text) set) ∨
      ∃ word, parse text = .error ⟨String.ofList word⟩ ∧
        ((words text).find? fun word => ¬ Named word) = some word := by
  rw [parse_eq_ofNames]
  exact ofNames_cases fun word hword => trim_of_mem_words hword

theorem exists_parse_iff {text : String} :
    (∃ set, parse text = .ok set) ↔ ∀ word ∈ words text, Named word := by
  rcases parse_cases text with ⟨set, hset, hnamed, -⟩ | ⟨word, herror, hfind⟩
  · exact iff_of_true ⟨set, hset⟩ hnamed
  · refine iff_of_false (fun ⟨set, hset⟩ => ?_) fun hnamed => ?_
    · rw [herror] at hset
      cases hset
    · have hstranger : ¬ Named word := by simpa using List.find?_some hfind
      exact hstranger (hnamed word (List.mem_of_find?_eq_some hfind))

theorem gathers_of_parse {text : String} {set : ServiceSet} (h : parse text = .ok set) :
    Gathers (words text) set := by
  rcases parse_cases text with ⟨found, hfound, -, hgathers⟩ | ⟨_, herror, -⟩
  · rw [h] at hfound
    cases hfound
    exact hgathers
  · rw [h] at herror
    cases herror

theorem find?_words_eq_none_iff {text : String} :
    ((words text).find? fun word => ¬ Named word) = none ↔ ∀ word ∈ words text, Named word := by
  simp

theorem parse_eq_error_iff {text : String} {unknown : UnknownService} :
    parse text = .error unknown ↔
      ∃ word, ((words text).find? fun word => ¬ Named word) = some word ∧
        unknown = ⟨String.ofList word⟩ := by
  rcases parse_cases text with ⟨set, hset, hnamed, -⟩ | ⟨word, herror, hfind⟩
  · rw [hset, find?_words_eq_none_iff.mpr hnamed]
    simp
  · rw [herror, hfind]
    simp [eq_comm]

theorem parse_append (a b : String) :
    parse (a ++ "," ++ b) = do
      let left ← parse a
      let right ← parse b
      return left ∪ right := by
  rw [parse_eq_ofNames, words_append, ofNames_append, parse_eq_ofNames, parse_eq_ofNames]

/-- Whether two lists have the same names, in whatever order, case and number. -/
def SameNames (a b : String) : Prop :=
  ∀ entry ∈ vocabulary, entry.1.toList ∈ (words a).map Text.lower ↔
    entry.1.toList ∈ (words b).map Text.lower

instance (a b : String) : Decidable (SameNames a b) :=
  inferInstanceAs (Decidable (∀ _ ∈ _, _))

theorem gathers_iff {words : List (List Char)} {set : ServiceSet} :
    Gathers words set ↔ set.IsKnown ∧ ∀ service, set.contains service = true ↔
      ∃ entry ∈ vocabulary, entry.1.toList ∈ words.map Text.lower ∧
        entry.2.contains service = true := by
  have hword (service : Service) :
      (∃ word ∈ words, ∃ part, StandsFor word part ∧ part.contains service = true) ↔
        ∃ entry ∈ vocabulary, entry.1.toList ∈ words.map Text.lower ∧
          entry.2.contains service = true := by
    constructor
    · rintro ⟨word, hword, _, ⟨entry, hentry, hlower, rfl⟩, hmem⟩
      rw [lower_of_mem_vocabulary hentry] at hlower
      exact ⟨entry, hentry, List.mem_map.mpr ⟨word, hword, hlower⟩, hmem⟩
    · rintro ⟨entry, hentry, hname, hmem⟩
      obtain ⟨word, hword, hlower⟩ := List.mem_map.mp hname
      refine ⟨word, hword, entry.2, ⟨entry, hentry, ?_, rfl⟩, hmem⟩
      rw [lower_of_mem_vocabulary hentry, hlower]
  constructor
  · intro h
    exact ⟨h.isKnown, fun service => (h.contains_iff service).trans (hword service)⟩
  · rintro ⟨hknown, hmem⟩
    exact ⟨hknown, fun service => (hmem service).trans (hword service).symm⟩

/-- What a list selects depends on its names alone, and a failure on its first word that is none. -/
theorem parse_congr {a b : String} (hnames : SameNames a b)
    (hfirst : ((words a).find? fun word => ¬ Named word) =
      (words b).find? fun word => ¬ Named word) : parse a = parse b := by
  cases ha : parse a with
  | error unknown =>
      obtain ⟨word, hword, rfl⟩ := parse_eq_error_iff.mp ha
      exact (parse_eq_error_iff.mpr ⟨word, hfirst.symm.trans hword, rfl⟩).symm
  | ok set =>
      have hnone := find?_words_eq_none_iff.mpr (exists_parse_iff.mp ⟨set, ha⟩)
      rw [hfirst, find?_words_eq_none_iff] at hnone
      obtain ⟨other, hb⟩ := exists_parse_iff.mpr hnone
      obtain ⟨hknown, hmem⟩ := gathers_iff.mp (gathers_of_parse ha)
      have hgathers : Gathers (words b) set := by
        refine gathers_iff.mpr ⟨hknown, fun service => (hmem service).trans ?_⟩
        refine exists_congr fun entry => and_congr_right fun hentry => ?_
        rw [hnames entry hentry]
      rw [hb, hgathers.unique (gathers_of_parse hb)]

/-! ## Displayed sets -/

theorem standsFor_name (service : Service) : StandsFor service.name.toList (singleton service) :=
  ⟨(service.name, singleton service),
    List.mem_append_right _ (List.mem_map.mpr ⟨service, service.mem_all, rfl⟩), rfl, rfl⟩

/-- A name is a single word. -/
theorem words_name (service : Service) : words service.name = [service.name.toList] := by
  obtain ⟨hne, hplain⟩ : service.name.toList ≠ [] ∧
      ∀ c ∈ service.name.toList, c ≠ ',' ∧ Text.isBlank c = false := by
    cases service <;> simp [Service.name, Text.isBlank]
  rw [words, List.splitOn_eq_singleton fun hmem => (hplain ',' hmem).1 rfl, List.map_singleton,
    Text.trim_eq_self fun c hc => (hplain c hc).2, List.filter_singleton]
  simp [hne]

theorem words_intercalate (services : List Service) :
    words (", ".intercalate (services.map Service.name)) = services.map (·.name.toList) := by
  induction services with
  | nil => rfl
  | cons service rest ih =>
      cases rest with
      | nil => exact words_name service
      | cons next rest =>
          have hcomma (listed : String) :
              service.name ++ ", " ++ listed = service.name ++ "," ++ (" " ++ listed) := by
            rw [show ", " = "," ++ " " from rfl]
            simp only [String.append_assoc]
          rw [List.map_cons, List.map_cons, String.intercalate_cons_cons, ← List.map_cons, hcomma,
            words_append, words_space_append, ih, words_name]
          rfl

theorem parse_display {set : ServiceSet} (hknown : set.IsKnown) (hne : set.isEmpty = false) :
    parse set.display = .ok set := by
  have hwords : words set.display = set.toList.map (·.name.toList) := by
    rw [display, hne, if_neg Bool.false_ne_true, words_intercalate]
  have hnamed : ∀ word ∈ words set.display, Named word := by
    intro word hword
    rw [hwords] at hword
    obtain ⟨service, -, rfl⟩ := List.mem_map.mp hword
    exact named_iff.mpr ⟨_, standsFor_name service⟩
  have hgathers : Gathers (words set.display) set := by
    refine ⟨hknown, fun service => ?_⟩
    rw [hwords, ← mem_toList]
    constructor
    · intro hmem
      exact ⟨_, List.mem_map.mpr ⟨service, hmem, rfl⟩, _, standsFor_name service, by simp⟩
    · rintro ⟨_, hword, part, hpart, hmem⟩
      obtain ⟨member, hmember, rfl⟩ := List.mem_map.mp hword
      rw [hpart.unique (standsFor_name member), contains_singleton] at hmem
      rwa [← of_decide_eq_true hmem]
  obtain ⟨found, hfound⟩ := exists_parse_iff.mpr hnamed
  rw [hfound, (gathers_of_parse hfound).unique hgathers]

/-- A list is read if all its words are names, and then selects what they stand for; otherwise the
first word that is no name is reported. Lists can be joined, only their names matter, and what is
displayed of a set selects it again. -/
theorem parse_grammar :
    (∀ text : String,
      ((∃ set, parse text = .ok set) ↔ ∀ word ∈ words text, Named word) ∧
      (∀ set, parse text = .ok set → Gathers (words text) set) ∧
      ∀ unknown, parse text = .error unknown ↔
        ∃ word, ((words text).find? fun word => ¬ Named word) = some word ∧
          unknown = ⟨String.ofList word⟩) ∧
    (∀ a b : String, parse (a ++ "," ++ b) = do
      let left ← parse a
      let right ← parse b
      return left ∪ right) ∧
    (∀ a b : String, SameNames a b →
      ((words a).find? fun word => ¬ Named word) = ((words b).find? fun word => ¬ Named word) →
        parse a = parse b) ∧
    ∀ set : ServiceSet, set.IsKnown → set.isEmpty = false → parse set.display = .ok set := by
  refine ⟨fun text => ⟨exists_parse_iff, ?_, ?_⟩, parse_append, ?_, ?_⟩
  · exact fun set hset => gathers_of_parse hset
  · exact fun unknown => parse_eq_error_iff
  · exact fun a b hnames hfirst => parse_congr hnames hfirst
  · exact fun set hknown hne => parse_display hknown hne

/-- A list with its names in another order, case and number and with blank pieces, one that fails
where another does, and a set with a group in it. -/
theorem parse_grammar_shuffledLists :
    SameNames "wss-625, VPS,, Wss-625 " "Vps,wss-625" ∧
      parse "wss-625, VPS,, Wss-625 " = parse "Vps,wss-625" ∧
      SameNames "vps,  Nabts,cc,vps" "Nabts,vps" ∧
      parse "vps,  Nabts,cc,vps" = parse "Nabts,vps" ∧
      parse "Nabts,vps" = .error ⟨"Nabts"⟩ ∧
      (caption525 ∪ singleton .vps).isEmpty = false ∧
      parse (caption525 ∪ singleton .vps).display = .ok (caption525 ∪ singleton .vps) := by
  obtain ⟨hparse, -, hsame, hdisplay⟩ := parse_grammar
  have hshuffled : SameNames "wss-625, VPS,, Wss-625 " "Vps,wss-625" := by decide +kernel
  have hstranger : SameNames "vps,  Nabts,cc,vps" "Nabts,vps" := by decide +kernel
  have hcaptions : ofList [.caption525Field1, .caption525Field2] = caption525 := by decide +kernel
  have hknown : caption525.IsKnown := by
    rw [← hcaptions]
    exact isKnown_ofList _
  exact ⟨hshuffled, hsame _ _ hshuffled (by decide +kernel), hstranger,
    hsame _ _ hstranger (by decide +kernel),
    ((hparse "Nabts,vps").2.2 _).mpr ⟨"Nabts".toList, by decide +kernel, by decide +kernel⟩,
    by decide +kernel, hdisplay _ (hknown.union (isKnown_singleton .vps)) (by decide +kernel)⟩

end ServiceSet

end Blanking

import Mathlib.Data.List.DropRight
import ModelIR.Proofs.SplitParts
import ModelIR.Text.CommaList

/-!
# Items between commas

White space is no part of an item that it stands around (`trim_of_padded`), and a comma is neither
white space nor in an item. So items are read from every text that has them between commas, with or
without white space around them and blanks among them (`CommaList.items_of_among`). There are no
other texts that they are read from: what trimming takes away is white space
(`CommaList.padded_trim`), and what it leaves of a part is an item, unless the part is blank
(`CommaList.among_trim`).
-/

namespace ModelIR

namespace CommaList

/-- What an item of a list may be: some text without commas, and without white space at its ends. -/
structure IsItem (item : List Char) : Prop where
  ne_nil : item ≠ []
  no_comma : ',' ∉ item
  first : ∀ c ∈ item.head?, isWhiteSpace c = false
  last : ∀ c ∈ item.getLast?, isWhiteSpace c = false

theorem any_isWhiteSpace_iff {c? : Option Char} :
    c?.any isWhiteSpace = false ↔ ∀ c ∈ c?, isWhiteSpace c = false := by
  cases c? <;> simp

instance (item : List Char) : Decidable (IsItem item) :=
  decidable_of_iff (item ≠ [] ∧ ',' ∉ item ∧ item.head?.any isWhiteSpace = false ∧
      item.getLast?.any isWhiteSpace = false) <| by
    rw [any_isWhiteSpace_iff, any_isWhiteSpace_iff]
    exact ⟨fun ⟨hne, hcomma, hfirst, hlast⟩ => ⟨hne, hcomma, hfirst, hlast⟩,
      fun h => ⟨h.ne_nil, h.no_comma, h.first, h.last⟩⟩

/-- A text, and the same with white space around it. -/
def Padded (text padded : List Char) : Prop :=
  ∃ before behind, padded = before ++ text ++ behind ∧ (∀ c ∈ before, isWhiteSpace c) ∧
    ∀ c ∈ behind, isWhiteSpace c

theorem padded_self (text : List Char) : Padded text text :=
  ⟨[], [], by simp, nofun, nofun⟩

/-- The text has the items between commas, with white space around them. -/
def Spells (items : List String) (text : String) : Prop :=
  ∃ parts, List.Forall₂ Padded (items.map String.toList) parts ∧ text.toList = joinWith ',' parts

variable {item padded text : List Char}

theorem dropWhile_item (h : ∀ c ∈ text.head?, isWhiteSpace c = false) :
    text.dropWhile isWhiteSpace = text := by
  cases text with
  | nil => rfl
  | cons c text => exact List.dropWhile_cons_of_neg (by simp [h c rfl])

theorem trim_of_padded (h : IsItem item) (hpadded : Padded item padded) : trim padded = item := by
  obtain ⟨before, behind, rfl, hbefore, hbehind⟩ := hpadded
  have hfirst : (item ++ behind).dropWhile isWhiteSpace = item ++ behind := by
    refine dropWhile_item fun c hc => h.first c ?_
    rwa [List.head?_append_of_ne_nil item h.ne_nil] at hc
  have hlast : item.reverse.dropWhile isWhiteSpace = item.reverse := by
    refine dropWhile_item fun c hc => h.last c ?_
    rwa [List.head?_reverse] at hc
  rw [trim, List.append_assoc, List.dropWhile_append_of_pos hbefore, hfirst, List.reverse_append,
    List.dropWhile_append_of_pos (by simpa using hbehind), hlast, List.reverse_reverse]

theorem comma_not_mem_blank (h : ∀ c ∈ text, isWhiteSpace c) : ',' ∉ text := fun hmem => by
  have hcomma : isWhiteSpace ',' = false := by decide
  simp [h ',' hmem] at hcomma

theorem comma_not_mem_padded (h : IsItem item) (hpadded : Padded item padded) : ',' ∉ padded := by
  obtain ⟨before, behind, rfl, hbefore, hbehind⟩ := hpadded
  simp only [List.mem_append, not_or]
  exact ⟨⟨comma_not_mem_blank hbefore, h.no_comma⟩, comma_not_mem_blank hbehind⟩

theorem trim_of_blank (h : ∀ c ∈ text, isWhiteSpace c) : trim text = [] := by
  rw [trim, List.dropWhile_eq_nil_iff.2 h]
  rfl

/-! ## Texts that have items -/

/-- The items are among the parts, in their order and with white space around them. The other parts
are blank. -/
inductive Among : List (List Char) → List (List Char) → Prop
  | nil : Among [] []
  | item {item padded : List Char} {items parts : List (List Char)} (padding : Padded item padded)
    (rest : Among items parts) : Among (item :: items) (padded :: parts)
  | blank {gap : List Char} {items parts : List (List Char)} (isBlank : ∀ c ∈ gap, isWhiteSpace c)
    (rest : Among items parts) : Among items (gap :: parts)

variable {texts parts : List (List Char)}

theorem Among.of_padded : ∀ {texts parts : List (List Char)},
    List.Forall₂ Padded texts parts → Among texts parts
  | [], [], _ => .nil
  | _ :: _, _ :: _, .cons padding rest => .item padding (of_padded rest)

theorem among_self : ∀ texts : List (List Char), Among texts texts
  | [] => .nil
  | text :: texts => .item (padded_self text) (among_self texts)

/-- Of parts that have items among them, these are what trimming leaves. -/
theorem Among.filter_trim (h : Among texts parts) (hitems : ∀ item ∈ texts, IsItem item) :
    (parts.map trim).filter (· ≠ []) = texts ∧ ∀ part ∈ parts, ',' ∉ part := by
  induction h with
  | nil => exact ⟨rfl, by simp⟩
  | item padding _ ih =>
    obtain ⟨hitem, hitems⟩ := List.forall_mem_cons.1 hitems
    obtain ⟨hkept, hcomma⟩ := ih hitems
    rw [List.map_cons, trim_of_padded hitem padding,
      List.filter_cons_of_pos (by simpa using hitem.ne_nil), hkept]
    exact ⟨rfl, List.forall_mem_cons.2 ⟨comma_not_mem_padded hitem padding, hcomma⟩⟩
  | blank isBlank _ ih =>
    obtain ⟨hkept, hcomma⟩ := ih hitems
    rw [List.map_cons, trim_of_blank isBlank, List.filter_cons_of_neg (by simp), hkept]
    exact ⟨rfl, List.forall_mem_cons.2 ⟨comma_not_mem_blank isBlank, hcomma⟩⟩

theorem items_of_among (hitems : ∀ item ∈ texts, IsItem item) (h : Among texts parts) :
    items (joinWith ',' parts) = texts := by
  obtain ⟨hkept, hcomma⟩ := h.filter_trim hitems
  rcases parts with _ | ⟨part, parts⟩
  · exact hkept
  · rw [items, splitOn_joinWith (List.cons_ne_nil part parts) hcomma, hkept]

theorem parse_of_items {listed : List String} {text : String}
    (h : items text.toList = listed.map String.toList) : parse text = listed := by
  rw [parse, h, List.map_map]
  simp

/-- A list is read from every text that spells it. -/
theorem parse_of_spells {items : List String} {text : String}
    (h : ∀ item ∈ items, IsItem item.toList) (hspells : Spells items text) :
      parse text = items := by
  obtain ⟨parts, hparts, htext⟩ := hspells
  refine parse_of_items ?_
  rw [htext]
  exact items_of_among (by simpa using h) (.of_padded hparts)

/-! ## Texts that are read -/

theorem padded_trim (text : List Char) : Padded (trim text) text := by
  refine ⟨text.takeWhile isWhiteSpace, (text.dropWhile isWhiteSpace).rtakeWhile isWhiteSpace, ?_,
    fun c => List.mem_takeWhile_imp, fun c => List.mem_rtakeWhile_imp⟩
  have hbehind : trim text ++ (text.dropWhile isWhiteSpace).rtakeWhile isWhiteSpace =
      text.dropWhile isWhiteSpace := List.rdropWhile_append_rtakeWhile
  rw [List.append_assoc, hbehind, List.takeWhile_append_dropWhile]

theorem Padded.mem {c : Char} (h : Padded text padded) (hc : c ∈ text) : c ∈ padded := by
  obtain ⟨before, behind, rfl, -, -⟩ := h
  simp [hc]

theorem Padded.isBlank (h : Padded [] padded) : ∀ c ∈ padded, isWhiteSpace c := by
  obtain ⟨before, behind, rfl, hbefore, hbehind⟩ := h
  rw [List.append_nil]
  exact List.forall_mem_append.2 ⟨hbefore, hbehind⟩

theorem isItem_trim (hcomma : ',' ∉ text) (hne : trim text ≠ []) : IsItem (trim text) where
  ne_nil := hne
  no_comma h := hcomma ((padded_trim text).mem h)
  first c hc := by
    obtain ⟨behind, hbehind⟩ : trim text <+: text.dropWhile isWhiteSpace :=
      List.rdropWhile_prefix _ _
    have hhead := List.head?_dropWhile_not isWhiteSpace text
    rw [← hbehind, List.head?_append_of_ne_nil _ hne, hc] at hhead
    exact hhead
  last c hc := by
    have hlast := List.rdropWhile_last_not isWhiteSpace (text.dropWhile isWhiteSpace) hne
    rw [← List.getLast_of_mem_getLast? hc]
    exact Bool.eq_false_iff.2 hlast

theorem among_trim : ∀ parts : List (List Char), Among ((parts.map trim).filter (· ≠ [])) parts
  | [] => .nil
  | part :: parts => by
    have hpadded := padded_trim part
    rw [List.map_cons]
    by_cases hblank : trim part = []
    · rw [hblank] at hpadded
      rw [hblank, List.filter_cons_of_neg (by simp)]
      exact .blank hpadded.isBlank (among_trim parts)
    · rw [List.filter_cons_of_pos (by simpa using hblank)]
      exact .item hpadded (among_trim parts)

theorem isItem_of_mem_items {chars : List Char} (h : item ∈ items chars) : IsItem item := by
  obtain ⟨hmem, hne⟩ := List.mem_filter.1 h
  obtain ⟨part, hpart, rfl⟩ := List.mem_map.1 hmem
  exact isItem_trim (not_mem_of_mem_splitOn hpart) (by simpa using hne)

theorem items_append_comma (chars others : List Char) :
    items (chars ++ ',' :: others) = items chars ++ items others := by
  rw [items, splitOn_append_sep, List.map_append, List.filter_append]
  rfl

theorem toList_intercalate_comma (parts : List String) :
    (",".intercalate parts).toList = joinWith ',' (parts.map String.toList) := by
  rw [String.toList_intercalate, joinWith_eq_intercalate]
  rfl

theorem toList_parse (text : String) : (parse text).map String.toList = items text.toList := by
  rw [parse, List.map_map]
  simp

theorem isItem_of_mem_parse {text item : String} (h : item ∈ parse text) : IsItem item.toList := by
  have hmem : item.toList ∈ items text.toList := by
    rw [← toList_parse]
    exact List.mem_map_of_mem h
  exact isItem_of_mem_items hmem

theorem parse_append_comma (a b : String) : parse (a ++ "," ++ b) = parse a ++ parse b := by
  have htext : (a ++ "," ++ b).toList = a.toList ++ ',' :: b.toList := by simp
  rw [parse, htext, items_append_comma, List.map_append]
  rfl

theorem parse_of_among {items parts : List String} (hitems : ∀ item ∈ items, IsItem item.toList)
    (h : Among (items.map String.toList) (parts.map String.toList)) :
    parse (",".intercalate parts) = items := by
  refine parse_of_items ?_
  rw [toList_intercalate_comma]
  exact items_of_among (by simpa using hitems) h

theorem exists_among_parse (text : String) : ∃ parts : List String,
    Among ((parse text).map String.toList) (parts.map String.toList) ∧
      text = ",".intercalate parts := by
  have hparts : ((splitOn ',' text.toList).map String.ofList).map String.toList =
      splitOn ',' text.toList := by simp
  refine ⟨(splitOn ',' text.toList).map String.ofList, ?_, String.toList_injective ?_⟩
  · rw [toList_parse, hparts]
    exact among_trim _
  · rw [toList_intercalate_comma, hparts, joinWith_splitOn]

/-- A comma between two texts puts the items of the one before those of the other. What is read are
items. The texts that some items are read from are those that have them between commas, with white
space around them and blanks among them, so what is read is read again from the items between
commas. -/
theorem parse_joined :
    (∀ a b, parse (a ++ "," ++ b) = parse a ++ parse b) ∧
    (∀ text, ∀ item ∈ parse text, IsItem item.toList) ∧
    (∀ items text, parse text = items ↔ (∀ item ∈ items, IsItem item.toList) ∧
      ∃ parts : List String, Among (items.map String.toList) (parts.map String.toList) ∧
        text = ",".intercalate parts) ∧
    ∀ text, parse (",".intercalate (parse text)) = parse text := by
  refine ⟨parse_append_comma, fun text item => isItem_of_mem_parse, fun items text => ⟨?_, ?_⟩, ?_⟩
  · rintro rfl
    exact ⟨fun item => isItem_of_mem_parse, exists_among_parse text⟩
  · rintro ⟨hitems, parts, hamong, rfl⟩
    exact parse_of_among hitems hamong
  · intro text
    exact parse_of_among (fun item => isItem_of_mem_parse) (among_self _)

/-- White space of several bytes, within an item as well, and commas in a row. -/
def looseList : String :=
  ",\u00A0a\u2003b\u3000,\t,,c\u2028, "

def looseParts : List String :=
  ["", "\u00A0a\u2003b\u3000", "\t", "", "c\u2028", " "]

theorem looseList_parse : (∀ item ∈ ["a\u2003b", "c"], IsItem item.toList) ∧
    Among (["a\u2003b", "c"].map String.toList) (looseParts.map String.toList) ∧
    parse looseList = ["a\u2003b", "c"] ∧
    parse (looseList ++ "," ++ looseList) = ["a\u2003b", "c", "a\u2003b", "c"] ∧
    parse (",".intercalate (parse looseList)) = ["a\u2003b", "c"] := by
  have hitems : ∀ item ∈ ["a\u2003b", "c"], IsItem item.toList := by decide
  have hblank {gap : List Char} (h : gap.all isWhiteSpace) : ∀ c ∈ gap, isWhiteSpace c :=
    List.all_eq_true.1 h
  have hfirst : Padded "a\u2003b".toList "\u00A0a\u2003b\u3000".toList :=
    ⟨['\u00A0'], ['\u3000'], by decide, hblank rfl, hblank rfl⟩
  have hsecond : Padded "c".toList "c\u2028".toList :=
    ⟨[], ['\u2028'], by decide, hblank rfl, hblank rfl⟩
  have hamong : Among (["a\u2003b", "c"].map String.toList) (looseParts.map String.toList) :=
    .blank (hblank rfl) <| .item hfirst <| .blank (hblank rfl) <| .blank (hblank rfl) <|
      .item hsecond <| .blank (hblank rfl) .nil
  obtain ⟨happend, -, hread, hagain⟩ := parse_joined
  have hloose : parse looseList = ["a\u2003b", "c"] :=
    (hread _ _).2 ⟨hitems, looseParts, hamong, by decide⟩
  refine ⟨hitems, hamong, hloose, ?_, (hagain looseList).trans hloose⟩
  rw [happend, hloose]
  rfl

end CommaList

end ModelIR

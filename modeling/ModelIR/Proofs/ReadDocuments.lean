import ModelIR.Proofs.DeclaredEntities
import ModelIR.Proofs.WrittenDocuments

/-!
# Documents that are read

A document that declares no namespace and uses no prefixed names is read as a root that is plain but
for characters that only the version of the document allows (`plain_of_parse`): all that its tokens
add to an assembly is so. Documents that are written are of this kind (`hasNoPrefixes_print`).
-/

namespace ModelIR.Xml

variable {name : QName} {attributes : List (QName × List Char)} {tag : Tag} {scope : Scope}
  {C : Char → Bool}

/-- The tag that an unprefixed token opens is plain, and no namespace is declared in it. -/
theorem plain_of_openTag? {closed : Bool}
    (ht : (Token.opening name attributes closed).PlainWith C)
    (h : openTag? Scope.outermost name attributes = some (tag, scope)) :
    tag.PlainWith C ∧ scope = Scope.outermost := by
  obtain ⟨hname, hattributes⟩ := ht
  have hkept : attributes = (attributes.map fun a => (a.1.name, String.ofList a.2)).map
      fun a => (({ name := a.1 } : QName), a.2.toList) := by
    rw [List.map_map]
    refine (List.map_id _).symm.trans (List.map_congr_left fun a ha => ?_)
    obtain ⟨⟨nsPrefix, name⟩, value⟩ := a
    obtain rfl : nsPrefix = none := (hattributes _ ha).1.nsPrefix
    simp
  have hxmlns : ∀ b ∈ attributes.map fun a => (a.1.name, String.ofList a.2),
      b.1 ≠ Scope.xmlnsPrefix := by
    intro b hb
    obtain ⟨a, ha, rfl⟩ := List.mem_map.1 hb
    exact (hattributes a ha).2.1
  rw [hkept, openTag?_local hname.nsPrefix hxmlns] at h
  split_ifs at h with hnodup
  obtain ⟨rfl, rfl⟩ := Prod.mk.inj (Option.some.inj h)
  refine ⟨⟨⟨rfl, hname.name, hname.no_colon⟩, rfl, rfl, hnodup, fun b hb => ?_⟩, rfl⟩
  obtain ⟨⟨⟨nsPrefix, name⟩, value⟩, ha, rfl⟩ := List.mem_map.1 hb
  obtain ⟨hlocal, hne, hvalue⟩ := hattributes _ ha
  refine ⟨⟨rfl, hlocal.name, hlocal.no_colon⟩, hne, ?_⟩
  rwa [String.toList_ofList]

/-- What an assembly holds is plain but for its characters, and no prefix is declared in it. -/
structure Assembly.Holds (C : Char → Bool) (a : Assembly) : Prop where
  frames : ∀ f ∈ a.frames,
    f.tag.PlainWith C ∧ f.scope = Scope.outermost ∧ Node.PlainAllWith C f.reversed
  root : ∀ e ∈ a.root, e.PlainWith C

namespace Assembly

variable {a a' : Assembly} {t : Token}

theorem Holds.scope_eq (h : a.Holds C) : a.scope = Scope.outermost := by
  rw [Assembly.scope]
  rcases hf : a.frames with _ | ⟨f, frames⟩
  · rfl
  · exact (h.frames f (hf ▸ List.mem_cons_self)).2.1

theorem Holds.of_frames (h : a.Holds C) {f : Frame} {frames : List Frame}
    (hf : a.frames = f :: frames) :
    (f.tag.PlainWith C ∧ f.scope = Scope.outermost ∧ Node.PlainAllWith C f.reversed) ∧
      Holds C { a with frames } := by
  have hframes := h.frames
  rw [hf] at hframes
  obtain ⟨hinner, hframes⟩ := List.forall_mem_cons.1 hframes
  exact ⟨hinner, hframes, h.root⟩

theorem Holds.put (h : a.Holds C) {node : Node} (hnode : node.PlainWith C) :
    (a.put node).Holds C := by
  rw [Assembly.put]
  split
  · next f frames hf =>
    obtain ⟨⟨htag, hscope, hreversed⟩, hrest⟩ := h.of_frames hf
    exact ⟨List.forall_mem_cons.2 ⟨⟨htag, hscope, hnode, hreversed⟩, hrest.frames⟩, h.root⟩
  · refine ⟨h.frames, fun e he => ?_⟩
    rcases hroot : a.root with _ | e'
    · rw [hroot, Option.none_or] at he
      cases node <;> first | (obtain rfl := Option.some.inj he; exact hnode) | cases he
    · rw [hroot, Option.some_or] at he
      obtain rfl := Option.some.inj he
      exact h.root e' hroot

theorem Holds.putString (h : a.Holds C) {body : List Char} (hbody : body.all C = true) :
    (a.put (.text (String.ofList body))).Holds C :=
  h.put (by rwa [Node.PlainWith, String.toList_ofList])

theorem Holds.putText (h : a.Holds C) {body : List Char} (hbody : body.all C = true) :
    (a.putText body).Holds C := by
  rw [Assembly.putText]
  split_ifs
  · exact h
  · exact h.putString hbody

theorem Holds.add_opening {closed : Bool} (h : a.Holds C)
    (ht : (Token.opening name attributes closed).PlainWith C)
    (hadd : a.add (.opening name attributes closed) = some a') : a'.Holds C := by
  simp only [Assembly.add, h.scope_eq, Option.bind_eq_bind, Option.bind_eq_some_iff, Prod.exists]
    at hadd
  obtain ⟨tag, scope, hopen, hadd⟩ := hadd
  obtain ⟨htag, rfl⟩ := plain_of_openTag? ht hopen
  cases closed with
  | true =>
    obtain rfl := Option.some.inj hadd
    exact h.put ⟨htag, trivial⟩
  | false =>
    obtain rfl := Option.some.inj hadd
    exact ⟨List.forall_mem_cons.2 ⟨⟨htag, rfl, trivial⟩, h.frames⟩, h.root⟩

theorem Holds.add_closing (h : a.Holds C) (hadd : a.add (.closing name) = some a') :
    a'.Holds C := by
  rw [Assembly.add] at hadd
  split at hadd
  · simp at hadd
  · next f frames hf =>
    split_ifs at hadd
    obtain rfl := Option.some.inj hadd
    obtain ⟨⟨htag, -, hreversed⟩, hrest⟩ := h.of_frames hf
    refine hrest.put ⟨htag, Node.plainAll_iff.2 fun node hnode => ?_⟩
    exact Node.plainAll_iff.1 hreversed node (List.mem_reverse.1 hnode)

/-- What is plain may be added, whatever kind of token it is. -/
theorem Holds.add (hblank : ∀ c, isBlank c = true → C c = true) (h : a.Holds C)
    (ht : t.PlainWith C) (hadd : a.add t = some a') : a'.Holds C := by
  cases t with
  | opening name attributes closed => exact h.add_opening ht hadd
  | closing name => exact h.add_closing hadd
  | blanks body =>
    rw [Assembly.add] at hadd
    split_ifs at hadd <;> obtain rfl := Option.some.inj hadd
    · exact h
    · exact h.putText (all_mono hblank ht)
  | text body =>
    rw [Assembly.add] at hadd
    split_ifs at hadd
    obtain rfl := Option.some.inj hadd
    exact h.putText ht
  | verbatim body =>
    rw [Assembly.add] at hadd
    split_ifs at hadd
    obtain rfl := Option.some.inj hadd
    exact h.putString ht
  | comment body =>
    obtain rfl := Option.some.inj hadd
    exact h.put (by rw [Node.PlainWith, String.toList_ofList]; exact ht)
  | instruction target data =>
    rw [Assembly.add] at hadd
    split_ifs at hadd with hxml
    obtain rfl := Option.some.inj hadd
    refine h.put ⟨ht.1, hxml, fun body hbody => ?_⟩
    obtain ⟨chars, hchars, rfl⟩ := Option.map_eq_some_iff.1 hbody
    rw [String.toList_ofList]
    exact ht.2 chars hchars
  | doctype =>
    rw [Assembly.add] at hadd
    split_ifs at hadd
    obtain rfl := Option.some.inj hadd
    exact ⟨h.frames, h.root⟩

theorem Holds.step (hblank : ∀ c, isBlank c = true → C c = true) (h : a.Holds C)
    (ht : t.PlainWith C) (hstep : a.step t = some a') : a'.Holds C := by
  obtain ⟨b, hadd, rfl⟩ := Option.map_eq_some_iff.1 hstep
  have hb := h.add hblank ht hadd
  exact ⟨hb.frames, hb.root⟩

theorem Holds.run (hblank : ∀ c, isBlank c = true → C c = true) :
    ∀ {tokens : List Token} {a : Assembly}, a.Holds C → (∀ t ∈ tokens, t.PlainWith C) →
      tokens.foldlM Assembly.step a = some a' → a'.Holds C
  | [], a, h, _, hrun => by
    obtain rfl := Option.some.inj hrun
    exact h
  | t :: tokens, a, h, ht, hrun => by
    obtain ⟨ht, htokens⟩ := List.forall_mem_cons.1 ht
    rw [List.foldlM_cons] at hrun
    obtain ⟨b, hstep, hrun⟩ := Option.bind_eq_some_iff.1 hrun
    exact (h.step hblank ht hstep).run hblank htokens hrun

end Assembly

/-! ## Documents -/

theorem Version.allows_of_isBlank (version : Version) {c : Char} (h : isBlank c = true) :
    version.allows c = true := by
  cases version with
  | one => exact isChar_of_isBlank h
  | oneOne =>
    simp only [isBlank, Bool.or_eq_true, decide_eq_true_eq] at h
    rcases h with ((rfl | rfl) | rfl) | rfl <;> rfl

/-- A document that declares no namespace and uses no prefixed names. -/
def HasNoPrefixes (bytes : ByteArray) : Prop :=
  ∀ tokens, tokensOfBytes? bytes = some tokens → ∀ t ∈ tokens, t.Unprefixed

/-- A document that declares no namespace and uses no prefixed names has a root that is plain, but
for the characters that only its version allows. -/
theorem plain_of_parse {bytes : ByteArray} {root : Element} (hu : HasNoPrefixes bytes)
    (h : Element.parse bytes = some root) :
    ∃ version text, charsOfBytes? bytes = some (version, text) ∧
      root.PlainWith version.allows := by
  obtain ⟨tokens, htokens, h⟩ := Option.bind_eq_some_iff.1 h
  obtain ⟨a, hrun, hfinish⟩ := Option.bind_eq_some_iff.1 h
  have hunprefixed := hu tokens htokens
  obtain ⟨⟨version, text⟩, htext, htokens⟩ := Option.bind_eq_some_iff.1 htokens
  obtain ⟨⟨lexemes, entities⟩, hlex, htokens⟩ := Option.bind_eq_some_iff.1 htokens
  have hplain := plain_of_readAll (sound_of_lex hlex) (linked_of_lex hlex) htokens hunprefixed
  have hempty : Assembly.Holds version.allows {} := ⟨List.forall_mem_nil _, nofun⟩
  have ha := hempty.run (fun _ => version.allows_of_isBlank) hplain hrun
  rw [Assembly.finish] at hfinish
  split_ifs at hfinish
  exact ⟨version, text, htext, ha.root root hfinish⟩

/-- Any character. -/
abbrev anyChar : Char → Bool :=
  fun _ => true

theorem plainWith_of_parse {bytes : ByteArray} {root : Element} (hu : HasNoPrefixes bytes)
    (h : Element.parse bytes = some root) : root.PlainWith anyChar := by
  obtain ⟨version, -, -, hplain⟩ := plain_of_parse hu h
  exact Node.PlainWith.mono (fun _ _ => rfl) hplain

/-- The version of a document. -/
def versionOf? (bytes : ByteArray) : Option Version :=
  (charsOfBytes? bytes).map Prod.fst

/-- The texts of a document of the first version may stand in any document. -/
theorem hasTexts_of_parse {bytes : ByteArray} {root : Element} (hu : HasNoPrefixes bytes)
    (h : Element.parse bytes = some root) (hversion : versionOf? bytes = some .one) :
    root.HasTexts := by
  obtain ⟨version, text, htext, hplain⟩ := plain_of_parse hu h
  rw [versionOf?, htext] at hversion
  obtain rfl : version = .one := Option.some.inj hversion
  have hroot : root.Plain := hplain
  exact hplain.plain_iff.1 hroot

/-- A document that is written is of the first version. -/
theorem versionOf?_print (root : Element) : versionOf? root.print.toUTF8 = some .one := by
  rw [versionOf?, Element.print, charsOfBytes?_header]
  rfl

section Later

/-- A document of the second version, with a control character. -/
def laterText : String :=
  "<?xml version=\"1.1\"?><c><models/><x a=\"&#1;\"/></c>"

/-- The tokens of this document. -/
def laterTokens : List Token :=
  [.opening { name := "c" } [] false, .opening { name := "models" } [] true,
    .opening { name := "x" } [({ name := "a" }, ['\x01'])] true, .closing { name := "c" }]

/-- The root of this document. -/
def laterRoot : Element :=
  ⟨{ name := "c" }, [.element { name := "models" } [],
    .element { name := "x", attributes := [("a", "\x01")] } []]⟩

/-- The lexemes of this document, behind its declaration. -/
def laterLexemes : List Lexeme :=
  [.tagStart, .char 'c', .tagEnd,
    .tagStart, .char 'm', .char 'o', .char 'd', .char 'e', .char 'l', .char 's', .emptyTagEnd,
    .tagStart, .char 'x', .char ' ', .char 'a', .equals, .quote '"', .referenceStart, .char '#',
    .char '1', .referenceEnd, .quote '"', .emptyTagEnd,
    .closingStart, .char 'c', .tagEnd]

theorem charsOfBytes?_laterText :
    charsOfBytes? laterText.toUTF8 = some (.oneOne, spell laterLexemes) :=
  rfl

theorem lexed_laterLexemes : Lexed (.plain .content) laterLexemes := by
  repeat refine ⟨_, rfl, ?_⟩
  rfl

theorem readAll_laterLexemes :
    Token.readAll { version := .oneOne } laterLexemes = some laterTokens := by
  decide +kernel

theorem tokensOfBytes?_laterText : tokensOfBytes? laterText.toUTF8 = some laterTokens := by
  have hlex : lex .oneOne (spell laterLexemes) = some (laterLexemes, []) :=
    lex_spell lexed_laterLexemes (by decide)
  rw [tokensOfBytes?, charsOfBytes?_laterText]
  simp only [Option.bind_eq_bind, Option.bind_some, hlex]
  exact readAll_laterLexemes

theorem hasNoPrefixes_laterText : HasNoPrefixes laterText.toUTF8 := by
  intro tokens htokens
  obtain rfl := Option.some.inj (tokensOfBytes?_laterText.symm.trans htokens)
  have hx : Scope.xmlnsPrefix ≠ "a" := by decide
  simp [laterTokens, Token.Unprefixed, hx.symm]

theorem parse_laterText : Element.parse laterText.toUTF8 = some laterRoot := by
  rw [Element.parse, tokensOfBytes?_laterText]
  rfl

theorem not_hasTexts_laterRoot : ¬ laterRoot.HasTexts := by
  decide

end Later

/-! ## Written documents -/

theorem isWrittenText_of_mem_flushRun {t : Token} {run : List Char} (h : t ∈ flushRun run) :
    t.isWrittenText = true := by
  rw [flushRun] at h
  split_ifs at h
  · simp at h
  · exact List.mem_singleton.1 h ▸ rfl
  · exact List.mem_singleton.1 h ▸ rfl

theorem mem_coalesce {t : Token} : ∀ {tokens : List Token} (run : List Char),
    (∀ t ∈ tokens, t.isWrittenMarkup = true ∨ t.isWrittenText = true) →
      t ∈ coalesce run tokens → t ∈ tokens ∨ t.isWrittenText = true
  | [], _, _, h => .inr (isWrittenText_of_mem_flushRun h)
  | token :: tokens, run, hwritten, h => by
    obtain ⟨hw, hwritten⟩ := List.forall_mem_cons.1 hwritten
    have htail : ∀ run', t ∈ coalesce run' tokens → t ∈ token :: tokens ∨ t.isWrittenText = true :=
      fun run' h => (mem_coalesce run' hwritten h).imp_left (List.mem_cons_of_mem _)
    rcases hw with hmarkup | htext
    · rw [coalesce_markup hmarkup] at h
      rcases List.mem_append.1 h with h | h
      · exact .inr (isWrittenText_of_mem_flushRun h)
      · rcases List.mem_cons.1 h with rfl | h
        · exact .inl List.mem_cons_self
        · exact htail [] h
    · cases token with
      | text body => exact htail (run ++ body) h
      | blanks body => exact htail (run ++ body) h
      | _ => simp [Token.isWrittenText] at htext

theorem Token.unprefixed_of_plain {t : Token} (h : t.PlainWith C) : t.Unprefixed := by
  cases t with
  | opening name attributes closed =>
    exact ⟨h.1.nsPrefix, fun a ha => ⟨(h.2 a ha).1.nsPrefix, (h.2 a ha).2.1⟩⟩
  | closing name => exact h.nsPrefix
  | _ => trivial

/-- A plain document that is written declares no namespace and uses no prefixed names. -/
theorem hasNoPrefixes_print {root : Element} (h : root.Plain) :
    HasNoPrefixes root.print.toUTF8 := by
  intro tokens htokens t ht
  rw [tokensOfBytes?_print h] at htokens
  obtain rfl := Option.some.inj htokens
  have hlegible := legible_document (by decide) h
  rcases mem_coalesce [] (fun t ht => (hlegible t ht).2) ht with hmem | htext
  · exact Token.unprefixed_of_plain (hlegible t hmem).1
  · cases t with
    | text body => trivial
    | blanks body => trivial
    | _ => simp [Token.isWrittenText] at htext

end ModelIR.Xml

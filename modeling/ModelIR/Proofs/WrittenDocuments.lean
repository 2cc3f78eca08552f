import ModelIR.Proofs.Assembling

/-!
# Reading written documents

A document with a plain root that is written is read back as the root, settled (`parse_print`).
-/

namespace ModelIR.Xml

variable {ls : List Lexeme} {root : Element} {C : Char → Bool}

theorem fromUTF8?_toUTF8 (s : String) : String.fromUTF8? s.toUTF8 = some s := by
  have hvalid : s.toUTF8.IsValidUTF8 := s.isValidUTF8
  rw [String.fromUTF8?, dif_pos hvalid]
  rfl

theorem decodeUtf8?_toUTF8 (text : List Char) :
    decodeUtf8? (String.ofList text).toUTF8.data.toList = some text := by
  rw [decodeUtf8?, Array.toArray_toList, fromUTF8?_toUTF8, Option.map_some, String.toList_ofList]

theorem bytes_header_append (text : List Char) :
    (String.ofList (header.toList ++ text)).toUTF8.data.toList =
      header.toUTF8.data.toList ++ (String.ofList text).toUTF8.data.toList := by
  have happend : (String.ofList (header.toList ++ text)).toUTF8 =
      header.toUTF8 ++ (String.ofList text).toUTF8 := by
    rw [String.ofList_append, String.ofList_toList]
    exact String.toByteArray_append
  rw [happend, ByteArray.data_append, Array.toList_append]

/-- The declaration at the beginning of every document that is written. -/
theorem read?_header (rest : List UInt8) :
    ByteOrder.unmarked.read? (header.toUTF8.data.toList ++ rest) =
      (decodeUtf8? rest).map ({ encoding := some .utf8 }, ·) := by
  have hinner : (decodeUtf8? " version=\"1.0\" encoding=\"UTF-8\"".toUTF8.data.toList).bind
      Declaration.read? = some { encoding := some .utf8 } := rfl
  have hcut : cutDeclaration? byteOf (header.toUTF8.data.toList ++ rest) =
      some (some " version=\"1.0\" encoding=\"UTF-8\"".toUTF8.data.toList, rest) := rfl
  have hdecode : Encoding.utf8.decode? rest = decodeUtf8? rest := rfl
  simp only [ByteOrder.read?, hcut, Option.bind_eq_bind, Option.bind_some, Option.elim_some, hinner,
    Option.getD_some, hdecode]
  rcases decodeUtf8? rest with _ | text <;> rfl

theorem charsOfBytes?_header (text : List Char) :
    charsOfBytes? (String.ofList (header.toList ++ text)).toUTF8 = some (.one, text) := by
  rw [charsOfBytes?, bytes_header_append]
  change (ByteOrder.unmarked.read? (header.toUTF8.data.toList ++ _)).bind _ = _
  rw [read?_header, decodeUtf8?_toUTF8]
  rfl

theorem Legible.spell : ∀ {tokens : List Token}, Legible C tokens →
    spell (tokens.flatMap Token.lexemes) = tokens.flatMap Token.write
  | [], _ => rfl
  | t :: tokens, h => by
    obtain ⟨ht, htokens⟩ := List.forall_mem_cons.1 h
    rw [List.flatMap_cons, List.flatMap_cons, spell_append, spell_lexemes ht.1 ht.2,
      Legible.spell htokens]

theorem legible_document (hspace : C ' ' = true) (h : root.PlainWith C) :
    Legible C root.documentTokens :=
  (Node.PlainWith.legible hspace 0 h).cons (all_isBlank_indentation 0) (.inr rfl)

theorem ne_doctypeStart_dataLexeme (c : Char) : dataLexeme c ≠ .doctypeStart := by
  unfold dataLexeme
  split_ifs <;> nofun

/-- No document type is written. -/
theorem doctypeStart_notMem_lexemes (t : Token) : .doctypeStart ∉ t.lexemes := by
  have hescaped : ∀ {reference : Char → Option String} {text : List Char},
      .doctypeStart ∉ escapedLexemes reference text :=
    fun hmem => absurd (isMarkup_of_mem_escapedLexemes hmem) (by decide)
  cases t with
  | opening name attributes closed =>
    cases closed <;> simp [Token.lexemes, Token.attributeLexemes, hescaped]
  | closing name => simp [Token.lexemes]
  | blanks body => exact hescaped
  | text body => exact hescaped
  | verbatim body => exact List.not_mem_nil
  | comment body => simp [Token.lexemes]
  | instruction target data =>
    rcases data with _ | body <;> simp [Token.lexemes, ne_doctypeStart_dataLexeme]
  | doctype => exact List.not_mem_nil

/-- A document that is written is taken apart into the lexemes of its tokens. -/
theorem lex_document (hspace : C ' ' = true) (h : root.PlainWith C) :
    lex .one (root.documentTokens.flatMap Token.write) =
      some (root.documentTokens.flatMap Token.lexemes, []) := by
  have hplain : ∀ t ∈ root.documentTokens, t.PlainWith C :=
    fun t ht => (legible_document hspace h t ht).1
  have hend : Lexed content [] := rfl
  have hlexed := hend.tokens ⟨nofun, nofun⟩ hplain
  rw [List.append_nil] at hlexed
  rw [← (legible_document hspace h).spell]
  refine lex_spell hlexed fun hmem => ?_
  obtain ⟨t, -, hmem⟩ := List.mem_flatMap.1 hmem
  exact doctypeStart_notMem_lexemes t hmem

theorem tokensOfBytes?_eq (hspace : C ' ' = true) (h : root.PlainWith C) :
    tokensOfBytes? root.print.toUTF8 =
      Token.readAll {} (root.documentTokens.flatMap Token.lexemes) := by
  rw [tokensOfBytes?, Element.print, charsOfBytes?_header]
  simp only [Option.bind_eq_bind, Option.bind_some, lex_document hspace h]

theorem tokensOfBytes?_print (h : root.Plain) :
    tokensOfBytes? root.print.toUTF8 = some (coalesce [] root.documentTokens) := by
  have hlegible := legible_document (by decide) h
  have hplain : ∀ t ∈ root.documentTokens, t.Plain := fun t ht => (hlegible t ht).1
  have hwritten := fun t ht => (hlegible t ht).2
  have hempty : ([] : List Char).all isChar = true := rfl
  have hread := readAll_lexemes hempty hplain hwritten
  rw [tokensOfBytes?_eq (by decide) h]
  exact hread

theorem ofTokens?_document (h : root.PlainWith C) :
    Element.ofTokens? (coalesce [] root.documentTokens) = some root.settled := by
  have hempty : Assembly.IsPlain {} := ⟨rfl, rfl⟩
  have hblank := all_isBlank_indentation 0
  have hroot : root.toNode.isText = false := rfl
  have hgap := coalesce_tokens hroot (indentation 0) 0 []
  have hflush := Assembly.foldlM_flushRun hempty (.inr hblank)
    (coalesce [] (root.toNode.tokens [] 0 ++ []))
  have hassembled := Node.PlainWith.assembled 0 h hroot hempty []
  rw [flushText, if_pos hblank] at hflush
  rw [List.append_nil] at hgap hflush hassembled
  have hfold : (coalesce [] root.documentTokens).foldlM Assembly.step {} =
      some (Assembly.put {} root.toNode.settled) := by
    change (coalesce (indentation 0) (root.toNode.tokens [] 0)).foldlM Assembly.step {} = _
    rw [hgap, hflush]
    exact hassembled
  rw [Element.ofTokens?, hfold]
  rfl

/-- A document with a plain root that is written is read back as the root, settled. -/
theorem parse_print (h : root.Plain) : Element.parse root.print.toUTF8 = some root.settled := by
  rw [Element.parse, tokensOfBytes?_print h]
  exact ofTokens?_document h

end ModelIR.Xml

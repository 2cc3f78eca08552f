import Mathlib.Data.Option.Basic
import ModelIR.Proofs.PlainNodes

/-!
# Assembling written nodes

The tokens that a plain node is written to, with runs of text put together, are assembled to the
settled node (`Node.PlainWith.assembled`). Behind the nodes of an element a run of text may be open,
and it ends at the next markup.
-/

namespace ModelIR.Xml

variable {a : Assembly} {tag : Tag} {run : List Char} {C : Char → Bool}

/-! ## Tags -/

/-- Attributes with names that have no prefix. -/
def localAttributes (attributes : List (String × String)) : List (QName × String) :=
  attributes.map fun a => ({ name := a.1 }, a.2)

theorem setAttribute_fresh {attributes : List (String × String)} {name value : String}
    (h : name ∉ attributes.map Prod.fst) :
    setAttribute attributes name value = attributes ++ [(name, value)] := by
  have hnone : attributes.lookup name = none := by
    rw [List.lookup_eq_none_iff]
    intro p hp
    rw [bne_iff_ne]
    rintro rfl
    exact h (List.mem_map_of_mem hp)
  rw [setAttribute, hnone]
  rfl

theorem foldl_setAttribute : ∀ {attributes before : List (String × String)},
    ((before ++ attributes).map Prod.fst).Nodup →
    (localAttributes attributes).foldl (fun l a => setAttribute l a.1.name a.2) before =
      before ++ attributes
  | [], before, _ => (List.append_nil before).symm
  | (name, value) :: attributes, before, h => by
    have hfresh : name ∉ before.map Prod.fst := by
      rw [List.map_append, List.map_cons, List.nodup_append] at h
      exact fun hmem => h.2.2 name hmem name List.mem_cons_self rfl
    have hrest : ((before ++ [(name, value)] ++ attributes).map Prod.fst).Nodup := by
      rw [List.append_assoc]
      exact h
    have ih := foldl_setAttribute hrest
    rw [← setAttribute_fresh hfresh, setAttribute_fresh hfresh, List.append_assoc] at ih
    rw [← List.singleton_append, ← ih, ← setAttribute_fresh hfresh]
    rfl

theorem nodup_localAttributes {attributes : List (String × String)} :
    ((localAttributes attributes).map Prod.fst).Nodup ↔ (attributes.map Prod.fst).Nodup := by
  have hmap : (localAttributes attributes).map Prod.fst =
      (attributes.map Prod.fst).map fun name => ({ name } : QName) := by
    rw [localAttributes, List.map_map, List.map_map]
    rfl
  rw [hmap]
  constructor
  · exact fun h => List.Pairwise.of_map _ (fun p q hpq heq => hpq (heq ▸ rfl)) h
  · exact fun h => List.Pairwise.map _ (fun p q hpq heq => hpq (QName.mk.inj heq).2) h

/-- A tag without prefixes and declarations is opened if its attributes have distinct names. -/
theorem openTag?_local {name : QName} {attributes : List (String × String)}
    (hname : name.nsPrefix = none) (h : ∀ a ∈ attributes, a.1 ≠ Scope.xmlnsPrefix) :
    openTag? Scope.outermost name (attributes.map fun a => ({ name := a.1 }, a.2.toList)) =
      if (attributes.map Prod.fst).Nodup then
        some ({ name := name.name, attributes }, Scope.outermost)
      else none := by
  have hvalues : (attributes.map fun a => (({ name := a.1 } : QName), a.2.toList)).map
      (fun a => (a.1, String.ofList a.2)) = localAttributes attributes := by
    rw [List.map_map]
    exact List.map_congr_left fun a _ => by simp
  have hdeclared : ∀ q ∈ localAttributes attributes, Scope.declared? q.1 = none := by
    intro q hq
    obtain ⟨a, ha, rfl⟩ := List.mem_map.1 hq
    exact if_neg (h a ha)
  have hdeclarations : (localAttributes attributes).filterMap
      (fun a => (Scope.declared? a.1).map (·, a.2)) = [] := by
    refine List.filterMap_eq_nil_iff.2 fun q hq => ?_
    simp [hdeclared q hq]
  have hothers : (localAttributes attributes).filter
      (fun a => (Scope.declared? a.1).isNone) = localAttributes attributes := by
    refine List.filter_eq_self.2 fun q hq => ?_
    simp [hdeclared q hq]
  have hprefix : (localAttributes attributes).all (fun a =>
      a.1.nsPrefix.all fun p => (Scope.uri? Scope.outermost p).isSome) = true := by
    rw [List.all_eq_true]
    intro q hq
    obtain ⟨a, -, rfl⟩ := List.mem_map.1 hq
    rfl
  have hscope : Scope.outermost.declare [] = Scope.outermost := rfl
  rw [openTag?]
  simp only [hvalues, hdeclarations, hothers, hscope, hprefix, hname, nodup_localAttributes]
  by_cases hnodup : (attributes.map Prod.fst).Nodup
  · have hattributes := foldl_setAttribute
      (show (([] ++ attributes).map Prod.fst).Nodup from hnodup)
    simp only [hnodup, hattributes]
    rfl
  · simp only [hnodup]
    rfl

/-- A plain tag is read back, and no namespace is declared in it. -/
theorem Tag.PlainWith.openTag? (h : tag.PlainWith C) :
    openTag? Scope.outermost tag.qname (tag.written []) = some (tag, Scope.outermost) := by
  have hname : tag.qname.nsPrefix = none := h.qname.nsPrefix
  rw [h.written, openTag?_local hname fun a ha => (h.attributes a ha).2.1, if_pos h.names]
  obtain ⟨name, nsPrefix, uri, scope, attributes⟩ := tag
  obtain rfl : nsPrefix = none := hname
  obtain rfl : uri = none := h.uri
  obtain rfl : scope = [] := h.scope
  rfl

/-! ## Nodes -/

namespace Assembly

/-- No prefix is declared where the reading is, and blanks are not kept. -/
structure IsPlain (a : Assembly) : Prop where
  scope : a.scope = Scope.outermost
  keepsBlanks : a.keepsBlanks = false

/-- Puts nodes where the reading is, one behind the other. -/
def putAll (a : Assembly) (nodes : List Node) : Assembly :=
  nodes.foldl put a

theorem putAll_append (a : Assembly) (l₁ l₂ : List Node) :
    a.putAll (l₁ ++ l₂) = (a.putAll l₁).putAll l₂ :=
  List.foldl_append

theorem IsPlain.put (h : a.IsPlain) (node : Node) : (a.put node).IsPlain := by
  obtain ⟨frames, root, typed, keepsBlanks⟩ := a
  cases frames with
  | nil => exact ⟨h.scope, h.keepsBlanks⟩
  | cons f frames => exact ⟨h.scope, h.keepsBlanks⟩

theorem frames_put_ne_nil (h : a.frames ≠ []) (node : Node) : (a.put node).frames ≠ [] := by
  rw [Assembly.put]
  split
  · simp
  · next hnil => exact absurd hnil h

theorem IsPlain.putAll : ∀ {nodes : List Node} {a : Assembly}, a.IsPlain → (a.putAll nodes).IsPlain
  | [], _, h => h
  | node :: _, _, h => (h.put node).putAll

theorem frames_putAll_ne_nil : ∀ (nodes : List Node) {a : Assembly}, a.frames ≠ [] →
    (a.putAll nodes).frames ≠ []
  | [], _, h => h
  | node :: nodes, a, h => frames_putAll_ne_nil nodes (a := a.put node) (frames_put_ne_nil h node)

theorem step_of_add {token : Token} {a' : Assembly} (hadd : a.add token = some a')
    (hkeeps : a'.keepsBlanks = false) (htoken : keepsBlanksBehind token = false) :
    a.step token = some a' := by
  rw [step, hadd, htoken, ← hkeeps]
  rfl

theorem putAll_open (a : Assembly) (frames : List Frame) : ∀ (nodes : List Node) (f : Frame),
    ({ a with frames := f :: frames } : Assembly).putAll nodes =
      { a with frames := { f with reversed := nodes.reverse ++ f.reversed } :: frames }
  | [], _ => rfl
  | node :: nodes, f => by
    have ih := putAll_open a frames nodes { f with reversed := node :: f.reversed }
    rw [List.reverse_cons, List.append_assoc]
    exact ih

/-- A run of text is put where the reading is, unless it is blank. -/
theorem foldlM_flushRun (h : a.IsPlain) (hrun : a.frames ≠ [] ∨ run.all isBlank = true)
    (tokens : List Token) :
    (flushRun run ++ tokens).foldlM step a = tokens.foldlM step (a.putAll (flushText run)) := by
  rw [flushRun, flushText]
  split_ifs with hnil hblank hblank
  · rfl
  · simp [hnil] at hblank
  · refine List.foldlM_cons.trans ?_
    have hadd : a.add (.blanks run) = some a := by
      rw [add, putText, hblank, h.keepsBlanks]
      simp
    rw [step_of_add hadd h.keepsBlanks rfl]
    rfl
  · have hframes := hrun.resolve_right hblank
    refine List.foldlM_cons.trans ?_
    have hadd : a.add (.text run) = some (a.put (.text (String.ofList run))) := by
      rw [add, if_neg hframes, putText, Bool.eq_false_iff.2 hblank, decide_eq_false hnil]
      rfl
    rw [step_of_add hadd (h.put _).keepsBlanks rfl]
    rfl

end Assembly

theorem Tag.PlainWith.add_opening (h : tag.PlainWith C) (ha : a.IsPlain) (closed : Bool) :
    a.add (.opening tag.qname (tag.written []) closed) =
      if closed then some (a.put (.element tag [])) else
        some { a with
          frames := { name := tag.qname, tag, scope := Scope.outermost } :: a.frames } := by
  rw [Assembly.add, ha.scope, h.openTag?]
  rfl

theorem Assembly.add_closing (a : Assembly) (tag : Tag) (nodes : List Node) :
    Assembly.add { a with frames := ⟨tag.qname, tag, Scope.outermost, nodes.reverse⟩ :: a.frames }
      (.closing tag.qname) = some (a.put (.element tag nodes)) := by
  simp [Assembly.add, Frame.close, Element.toNode]

theorem Assembly.add_comment (a : Assembly) (text : String) :
    a.add (.comment (padded text.toList)) =
      some (a.put (.comment (String.ofList (padded text.toList)))) :=
  rfl

theorem Assembly.add_instruction {target : String} {data : Option String}
    (h : (Node.instruction target data).PlainWith C) (a : Assembly) :
    a.add (.instruction target (data.map String.toList)) =
      some (a.put (.instruction target data)) := by
  rw [Assembly.add, if_neg h.2.1, Option.map_map]
  simp [Function.comp_def]

/-- Whether text stands behind some nodes, and before them if there are none. -/
def textBehind (afterText : Bool) (nodes : List Node) : Bool :=
  (nodes.getLast?.map Node.isText).getD afterText

theorem textBehind_cons (afterText : Bool) (node : Node) (nodes : List Node) :
    textBehind afterText (node :: nodes) = textBehind node.isText nodes := by
  rw [textBehind, textBehind, List.getLast?_cons]
  rcases nodes.getLast? with _ | last <;> rfl

theorem endsInMarkup_eq {nodes : List Node} (h : nodes ≠ []) :
    Node.endsInMarkup nodes = !textBehind false nodes := by
  obtain ⟨last, hlast⟩ := Option.isSome_iff_exists.1 (List.getLast?_isSome.2 h)
  rw [Node.endsInMarkup, textBehind, hlast]
  rfl

/-- A run of text ends where a node that is no text begins. -/
theorem coalesce_tokens {node : Node} (h : node.isText = false) (run : List Char) (depth : Nat)
    (tokens : List Token) :
    coalesce run (node.tokens [] depth ++ tokens) =
      flushRun run ++ coalesce [] (node.tokens [] depth ++ tokens) := by
  have hmarkup : ∃ t rest, node.tokens [] depth = t :: rest ∧ t.isWrittenMarkup = true := by
    cases node with
    | element tag children =>
      rw [Node.tokens]
      split_ifs <;> exact ⟨_, _, rfl, rfl⟩
    | text t => simp [Node.isText] at h
    | comment t => exact ⟨_, _, rfl, rfl⟩
    | instruction target data => exact ⟨_, _, rfl, rfl⟩
  obtain ⟨t, rest, htokens, ht⟩ := hmarkup
  rw [htokens, List.cons_append, coalesce_markup ht, coalesce_markup ht]
  rfl

/-- Before a node that is no text a new line changes nothing. -/
theorem coalesce_gap {node : Node} (h : node.isText = false) {afterText : Bool}
    (hrun : afterText = false → run = []) (depth : Nat) (tokens : List Token) :
    ∃ run', flushText run' = flushText run ∧
      coalesce run ((if afterText then [] else [.blanks (indentation depth)]) ++
        (node.tokens [] depth ++ tokens)) =
          flushRun run' ++ coalesce [] (node.tokens [] depth ++ tokens) := by
  cases afterText with
  | true => exact ⟨run, rfl, coalesce_tokens h run depth tokens⟩
  | false =>
    obtain rfl := hrun rfl
    refine ⟨indentation depth, ?_, coalesce_tokens h (indentation depth) depth tokens⟩
    rw [flushText, if_pos (all_isBlank_indentation depth)]
    rfl

mutual

/-- The tokens of a plain node that is no text are assembled to the node, settled. -/
theorem Node.PlainWith.assembled (depth : Nat) :
    ∀ {node : Node}, node.PlainWith C → node.isText = false →
    ∀ {a : Assembly}, a.IsPlain → ∀ tokens : List Token,
      (coalesce [] (node.tokens [] depth ++ tokens)).foldlM Assembly.step a =
        (coalesce [] tokens).foldlM Assembly.step (a.put node.settled)
  | .element tag children, h, _, a, ha, tokens => by
    obtain ⟨htag, hchildren⟩ := h
    rw [Node.tokens, htag.declaredWithin]
    by_cases hempty : children.isEmpty
    · obtain rfl := List.isEmpty_iff.1 hempty
      refine List.foldlM_cons.trans ?_
      rw [Assembly.step_of_add (htag.add_opening ha true) (ha.put _).keepsBlanks rfl]
      rfl
    · have hend := endsInMarkup_eq fun hnil => hempty (List.isEmpty_iff.2 hnil)
      have hinner := Node.PlainAllWith.assembled (depth + 1) hchildren false [] (fun _ => rfl)
        (a := { a with frames := { name := tag.qname, tag, scope := Scope.outermost } :: a.frames })
        ⟨rfl, ha.keepsBlanks⟩ (by simp) depth tag.qname tokens
      have htail :
          (if !textBehind false children then [Token.blanks (indentation depth)] else []) ++
            [.closing tag.qname] ++ tokens =
            (if textBehind false children then [] else [.blanks (indentation depth)]) ++
              .closing tag.qname :: tokens := by
        rcases textBehind false children with _ | _ <;> rfl
      rw [if_neg hempty, hend]
      refine List.foldlM_cons.trans ?_
      rw [Assembly.step_of_add (htag.add_opening ha false) ha.keepsBlanks rfl]
      change (coalesce [] (_ ++ tokens)).foldlM Assembly.step _ = _
      rw [List.append_assoc, List.append_assoc, ← List.append_assoc _ _ tokens, htail, hinner,
        Assembly.putAll_open]
      refine List.foldlM_cons.trans ?_
      rw [List.append_nil, Assembly.step_of_add (a.add_closing tag _) (ha.put _).keepsBlanks rfl]
      rfl
  | .comment t, h, _, a, ha, tokens => by
    refine List.foldlM_cons.trans ?_
    rw [Assembly.step_of_add (a.add_comment t) (ha.put _).keepsBlanks rfl]
    rfl
  | .instruction target data, h, _, a, ha, tokens => by
    refine List.foldlM_cons.trans ?_
    rw [Assembly.step_of_add (a.add_instruction h) (ha.put _).keepsBlanks rfl]
    rfl

/-- The tokens of an element's children are assembled to the children, settled. -/
theorem Node.PlainAllWith.assembled (depth : Nat) :
    ∀ {nodes : List Node}, Node.PlainAllWith C nodes →
    ∀ (afterText : Bool) (run : List Char), (afterText = false → run = []) →
    ∀ {a : Assembly}, a.IsPlain → a.frames ≠ [] →
    ∀ (outer : Nat) (name : QName) (tokens : List Token),
      (coalesce run (Node.childTokens [] depth afterText nodes ++
        ((if textBehind afterText nodes then [] else [.blanks (indentation outer)]) ++
          .closing name :: tokens))).foldlM Assembly.step a =
        (.closing name :: coalesce [] tokens).foldlM Assembly.step (a.putAll (settle run nodes))
  | [], _, false, run, hrun, a, ha, _, outer, name, tokens => by
    obtain rfl := hrun rfl
    have hblank := all_isBlank_indentation outer
    have hflush := Assembly.foldlM_flushRun ha (.inr hblank) (.closing name :: coalesce [] tokens)
    rw [flushText, if_pos hblank] at hflush
    exact hflush
  | [], _, true, run, _, a, ha, hframes, _, name, tokens =>
    Assembly.foldlM_flushRun ha (.inl hframes) (.closing name :: coalesce [] tokens)
  | node :: nodes, h, afterText, run, hrun, a, ha, hframes, outer, name, tokens => by
    rw [textBehind_cons, Node.childTokens, List.append_assoc, List.append_assoc]
    by_cases htext : node.isText
    · obtain ⟨t, rfl⟩ := exists_text_of_isText htext
      rw [htext, Bool.or_true]
      exact Node.PlainAllWith.assembled depth h.2 true (run ++ t.toList) nofun ha hframes
        outer name tokens
    · rw [Bool.not_eq_true] at htext
      obtain ⟨run', hflush, hgap⟩ := coalesce_gap htext hrun depth
        (Node.childTokens [] depth false nodes ++
          ((if textBehind false nodes then [] else [.blanks (indentation outer)]) ++
            .closing name :: tokens))
      rw [htext, Bool.or_false, hgap, Assembly.foldlM_flushRun ha (.inl hframes), hflush,
        Node.PlainWith.assembled depth h.1 htext ha.putAll,
        Node.PlainAllWith.assembled depth h.2 false [] (fun _ => rfl) (ha.putAll.put _)
          (Assembly.frames_put_ne_nil (Assembly.frames_putAll_ne_nil _ hframes) _),
        settle_markup htext, Assembly.putAll_append]
      rfl

end

end ModelIR.Xml

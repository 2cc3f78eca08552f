import ModelIR.Proofs.Coalescing
import ModelIR.Xml.Parser
import ModelIR.Xml.Printer

/-!
# Plain documents

A plain element is in no namespace, has no prefix, and is made of characters that a document may
hold; `PlainWith` says the same for other characters. Reading a plain element back settles it: texts
next to each other become one, blank ones go, and comments get the spaces that they are written with
(`settle`).
-/

namespace ModelIR.Xml

/-- A tag without prefix and namespace, whose attributes have distinct names, and values of some
characters. -/
structure Tag.PlainWith (C : Char → Bool) (tag : Tag) : Prop where
  qname : tag.qname.IsLocal
  uri : tag.uri = none
  scope : tag.scope = []
  names : (tag.attributes.map Prod.fst).Nodup
  attributes : ∀ a ∈ tag.attributes, ({ name := a.1 } : QName).IsLocal ∧ a.1 ≠ Scope.xmlnsPrefix ∧
    a.2.toList.all C = true

/-- A tag without prefix and namespace, made of characters that a document may hold. -/
abbrev Tag.Plain : Tag → Prop :=
  Tag.PlainWith isChar

namespace Node

variable (C : Char → Bool)

mutual

/-- A node without namespaces, with text of some characters. -/
def PlainWith : Node → Prop
  | element tag children => tag.PlainWith C ∧ PlainAllWith children
  | text t => t.toList.all C = true
  | comment t => t.toList.all C = true ∧ isCommentBody t.toList = true
  | instruction target data => isName target.toList = true ∧ target.toLower ≠ Scope.xmlPrefix ∧
    ∀ body ∈ data, body.toList.all C = true ∧ isInstructionData body.toList = true

/-- Nodes without namespaces, with text of some characters. -/
def PlainAllWith : List Node → Prop
  | [] => True
  | node :: nodes => node.PlainWith ∧ PlainAllWith nodes

end

/-- A node that a document without namespaces can hold. -/
abbrev Plain : Node → Prop :=
  PlainWith isChar

variable {C}

theorem plainAll_iff : ∀ {nodes : List Node},
    PlainAllWith C nodes ↔ ∀ node ∈ nodes, node.PlainWith C
  | [] => by simp [PlainAllWith]
  | node :: nodes => by simp [PlainAllWith, @plainAll_iff nodes]

end Node

/-! ## Texts -/

/-- A text that a document may hold, whatever its version. -/
def IsText (text : String) : Prop :=
  text.toList.all isChar = true

instance (text : String) : Decidable (IsText text) :=
  inferInstanceAs (Decidable (text.toList.all isChar = true))

mutual

/-- The values, texts, comments and data of a node, and of all that is in it. -/
def Node.texts : Node → List String
  | .element tag children => tag.attributes.map Prod.snd ++ Node.allTexts children
  | .text t => [t]
  | .comment t => [t]
  | .instruction _ data => data.toList

/-- The values, texts, comments and data of nodes. -/
def Node.allTexts : List Node → List String
  | [] => []
  | node :: nodes => node.texts ++ Node.allTexts nodes

end

section Texts

variable {C D : Char → Bool}

theorem Tag.PlainWith.iff_values {tag : Tag} (h : tag.PlainWith C) :
    tag.PlainWith D ↔ ∀ a ∈ tag.attributes, a.2.toList.all D = true := by
  refine ⟨fun h' a ha => (h'.attributes a ha).2.2, fun hvalues => ?_⟩
  refine ⟨h.qname, h.uri, h.scope, h.names, fun a ha => ?_⟩
  exact ⟨(h.attributes a ha).1, (h.attributes a ha).2.1, hvalues a ha⟩

mutual

/-- A plain node is as plain for other characters if its texts are made of these. -/
theorem Node.PlainWith.iff_texts : ∀ {node : Node}, node.PlainWith C →
    (node.PlainWith D ↔ ∀ s ∈ node.texts, s.toList.all D = true)
  | .element tag children, ⟨htag, hchildren⟩ => by
    rw [Node.PlainWith, htag.iff_values, Node.PlainAllWith.iff_texts hchildren, Node.texts,
      List.forall_mem_append, List.forall_mem_map]
  | .text _, _ => by rw [Node.PlainWith, Node.texts, List.forall_mem_singleton]
  | .comment _, h => by
    rw [Node.PlainWith, Node.texts, List.forall_mem_singleton, and_iff_left h.2]
  | .instruction _ data, ⟨htarget, hxml, hdata⟩ => by
    rw [Node.PlainWith, and_iff_right htarget, and_iff_right hxml, Node.texts]
    simp only [Option.mem_toList]
    exact forall₂_congr fun body hbody => and_iff_left (hdata body hbody).2

theorem Node.PlainAllWith.iff_texts : ∀ {nodes : List Node}, Node.PlainAllWith C nodes →
    (Node.PlainAllWith D nodes ↔ ∀ s ∈ Node.allTexts nodes, s.toList.all D = true)
  | [], _ => by simp [Node.PlainAllWith, Node.allTexts]
  | node :: nodes, ⟨hnode, hnodes⟩ => by
    rw [Node.PlainAllWith, Node.PlainWith.iff_texts hnode, Node.PlainAllWith.iff_texts hnodes,
      Node.allTexts, List.forall_mem_append]

end

theorem all_mono (hall : ∀ c, C c = true → D c = true) {s : List Char} (h : s.all C = true) :
    s.all D = true :=
  List.all_eq_true.2 fun c hc => hall c (List.all_eq_true.1 h c hc)

/-- What is made of some characters is made of more. -/
theorem Node.PlainWith.mono (hall : ∀ c, C c = true → D c = true) {node : Node}
    (h : node.PlainWith C) : node.PlainWith D :=
  h.iff_texts.2 fun s hs => all_mono hall (h.iff_texts.1 h s hs)

end Texts

/-- The element can be the root of a document without namespaces but for its text, which is of some
characters. -/
def Element.PlainWith (C : Char → Bool) (e : Element) : Prop :=
  e.toNode.PlainWith C

/-- The element can be the root of a document without namespaces. -/
abbrev Element.Plain : Element → Prop :=
  Element.PlainWith isChar

/-- All values, texts, comments and data of a document may stand in a document of any version. -/
def Element.HasTexts (e : Element) : Prop :=
  ∀ s ∈ e.toNode.texts, IsText s

instance (e : Element) : Decidable e.HasTexts :=
  inferInstanceAs (Decidable (∀ s ∈ e.toNode.texts, IsText s))

theorem Element.PlainWith.plain_iff {C : Char → Bool} {e : Element} (h : e.PlainWith C) :
    e.Plain ↔ e.HasTexts :=
  Node.PlainWith.iff_texts h

/-! ## Settling -/

/-- The node that a run of text makes, unless all of it is blank. -/
def flushText (run : List Char) : List Node :=
  if run.all isBlank then [] else [.text (String.ofList run)]

mutual

/-- The node as it is read back. -/
def Node.settled : Node → Node
  | .element tag children => .element tag (settle [] children)
  | .text t => .text t
  | .comment t => .comment (String.ofList (padded t.toList))
  | .instruction target data => .instruction target data

/-- The nodes that follow a run of text as they are read back. -/
def settle (run : List Char) : List Node → List Node
  | [] => flushText run
  | .text t :: nodes => settle (run ++ t.toList) nodes
  | node :: nodes => flushText run ++ node.settled :: settle [] nodes

end

/-- The element as it is read back. -/
def Element.settled (e : Element) : Element :=
  ⟨e.tag, settle [] e.children⟩

theorem exists_text_of_isText {node : Node} (h : node.isText = true) : ∃ t, node = .text t := by
  cases node <;> first | exact ⟨_, rfl⟩ | simp [Node.isText] at h

theorem settle_markup {node : Node} (h : node.isText = false) (run : List Char)
    (nodes : List Node) :
    settle run (node :: nodes) = flushText run ++ node.settled :: settle [] nodes := by
  cases node <;> first | rfl | simp [Node.isText] at h

/-! ## Tokens -/

variable {C : Char → Bool}

/-- Tokens that are taken apart as they are written. -/
def Legible (C : Char → Bool) (tokens : List Token) : Prop :=
  ∀ t ∈ tokens, t.PlainWith C ∧ (t.isWrittenMarkup = true ∨ t.isWrittenText = true)

theorem legible_nil : Legible C [] :=
  nofun

theorem Legible.cons {t : Token} {tokens : List Token} (h : Legible C tokens) (ht : t.PlainWith C)
    (hw : t.isWrittenMarkup = true ∨ t.isWrittenText = true) : Legible C (t :: tokens) :=
  List.forall_mem_cons.2 ⟨⟨ht, hw⟩, h⟩

theorem Legible.append {t₁ t₂ : List Token} (h₁ : Legible C t₁) (h₂ : Legible C t₂) :
    Legible C (t₁ ++ t₂) := by
  intro t ht
  exact (List.mem_append.1 ht).elim (h₁ t) (h₂ t)

theorem all_isBlank_indentation (depth : Nat) : (indentation depth).all isBlank = true := by
  rw [indentation, List.all_cons, List.all_replicate]
  simp [isBlank]

theorem legible_indentation (depth : Nat) : Legible C [.blanks (indentation depth)] :=
  legible_nil.cons (all_isBlank_indentation depth) (.inr rfl)

theorem Tag.PlainWith.written {tag : Tag} (h : tag.PlainWith C) :
    tag.written [] = tag.attributes.map fun a => ({ name := a.1 }, a.2.toList) := by
  rw [Tag.written, Tag.undeclared, h.scope]
  rfl

theorem Tag.PlainWith.declaredWithin {tag : Tag} (h : tag.PlainWith C) :
    tag.declaredWithin [] = [] := by
  rw [Tag.declaredWithin, Tag.undeclared, h.scope]
  rfl

theorem Tag.PlainWith.opening {tag : Tag} (h : tag.PlainWith C) (closed : Bool) :
    (Token.opening tag.qname (tag.written []) closed).PlainWith C := by
  refine ⟨h.qname, fun a ha => ?_⟩
  rw [h.written] at ha
  obtain ⟨b, hb, rfl⟩ := List.mem_map.1 ha
  exact h.attributes b hb

theorem isCommentBody_append_blank : ∀ {body : List Char}, isCommentBody body = true →
    isCommentBody (body ++ [' ']) = true
  | [], _ => rfl
  | c :: body, h => by
    rw [isCommentBody, Bool.and_eq_true] at h
    rw [List.cons_append, isCommentBody, isCommentBody_append_blank h.2, Bool.and_true]
    rcases body with _ | ⟨d, body⟩
    · simp
    · exact h.1

theorem padded_plain (hspace : C ' ' = true) {body : List Char} (hchar : body.all C = true)
    (h : isCommentBody body = true) :
    (padded body).all C = true ∧ isCommentBody (padded body) = true := by
  have hback : (body ++ if body.getLast?.any isWhiteSpace then [] else [' ']).all C = true ∧
      isCommentBody (body ++ if body.getLast?.any isWhiteSpace then [] else [' ']) = true := by
    split_ifs
    · rw [List.append_nil]
      exact ⟨hchar, h⟩
    · refine ⟨?_, isCommentBody_append_blank h⟩
      rw [List.all_append, hchar, List.all_cons, hspace]
      rfl
  rw [padded, List.append_assoc]
  by_cases hfront : body.head?.any isWhiteSpace
  · rw [if_pos hfront]
    exact hback
  · rw [if_neg hfront, List.singleton_append, List.all_cons, isCommentBody, hback.1, hback.2,
      hspace]
    exact ⟨rfl, by simp⟩

mutual

theorem Node.PlainWith.legible (hspace : C ' ' = true) (depth : Nat) :
    ∀ {node : Node}, node.PlainWith C → Legible C (node.tokens [] depth)
  | .element tag children, h => by
    obtain ⟨htag, hchildren⟩ := h
    rw [Node.tokens, htag.declaredWithin]
    have hend : Legible C
        ((if Node.endsInMarkup children then [.blanks (indentation depth)] else []) ++
          [.closing tag.qname]) := by
      refine Legible.append ?_ (legible_nil.cons htag.qname (.inl rfl))
      split_ifs
      · exact legible_indentation depth
      · exact legible_nil
    by_cases hempty : children.isEmpty
    · rw [if_pos hempty]
      exact legible_nil.cons (htag.opening true) (.inl rfl)
    · rw [if_neg hempty, List.append_assoc]
      exact ((Node.PlainAllWith.legible hspace (depth + 1) false hchildren).append hend).cons
        (htag.opening false) (.inl rfl)
  | .text t, h => legible_nil.cons h (.inr rfl)
  | .comment t, h => legible_nil.cons (padded_plain hspace h.1 h.2) (.inl rfl)
  | .instruction target data, h => by
    refine legible_nil.cons ⟨h.1, fun body hbody => ?_⟩ (.inl rfl)
    obtain ⟨text, htext, rfl⟩ := Option.map_eq_some_iff.1 hbody
    exact h.2.2 text htext

theorem Node.PlainAllWith.legible (hspace : C ' ' = true) (depth : Nat) (afterText : Bool) :
    ∀ {nodes : List Node}, Node.PlainAllWith C nodes →
      Legible C (Node.childTokens [] depth afterText nodes)
  | [], _ => legible_nil
  | node :: nodes, h => by
    rw [Node.childTokens]
    refine (Legible.append ?_ (Node.PlainWith.legible hspace depth h.1)).append
      (Node.PlainAllWith.legible hspace depth node.isText h.2)
    split_ifs
    · exact legible_nil
    · exact legible_indentation depth

end

/-! ## What settling keeps -/

theorem flushText_plain {run : List Char} (h : run.all C = true) :
    Node.PlainAllWith C (flushText run) := by
  rw [flushText]
  split_ifs
  · trivial
  · exact ⟨by rw [Node.PlainWith, String.toList_ofList]; exact h, trivial⟩

theorem plainAll_append {l₁ l₂ : List Node} (h₁ : Node.PlainAllWith C l₁)
    (h₂ : Node.PlainAllWith C l₂) : Node.PlainAllWith C (l₁ ++ l₂) := by
  rw [Node.plainAll_iff] at *
  intro node h
  exact (List.mem_append.1 h).elim (h₁ node) (h₂ node)

mutual

theorem Node.PlainWith.settled (hspace : C ' ' = true) :
    ∀ {node : Node}, node.PlainWith C → node.settled.PlainWith C
  | .element tag children, h => ⟨h.1, settle_plain hspace rfl h.2⟩
  | .text t, h => h
  | .comment t, h => by
    obtain ⟨hchar, hbody⟩ := padded_plain hspace h.1 h.2
    rw [Node.settled, Node.PlainWith, String.toList_ofList]
    exact ⟨hchar, hbody⟩
  | .instruction target data, h => h

theorem settle_plain (hspace : C ' ' = true) : ∀ {nodes : List Node} {run : List Char},
    run.all C = true → Node.PlainAllWith C nodes → Node.PlainAllWith C (settle run nodes)
  | [], _, hrun, _ => flushText_plain hrun
  | .text t :: nodes, run, hrun, h => by
    have hrun' : (run ++ t.toList).all C = true := by
      rw [List.all_append, hrun, show t.toList.all C = true from h.1]
      rfl
    rw [settle]
    exact settle_plain hspace hrun' h.2
  | .element _ _ :: _, _, hrun, h =>
    plainAll_append (flushText_plain hrun)
      ⟨Node.PlainWith.settled hspace h.1, settle_plain hspace rfl h.2⟩
  | .comment _ :: _, _, hrun, h =>
    plainAll_append (flushText_plain hrun)
      ⟨Node.PlainWith.settled hspace h.1, settle_plain hspace rfl h.2⟩
  | .instruction _ _ :: _, _, hrun, h =>
    plainAll_append (flushText_plain hrun)
      ⟨Node.PlainWith.settled hspace h.1, settle_plain hspace rfl h.2⟩

end

end ModelIR.Xml

import ModelIR.Proofs.ReopenedFiles
import ModelIR.Proofs.RereadRuns

/-!
# Saving and loading

A plain document that is saved is loaded settled, whatever records were added to it
(`Document.cycle_ok`). To settle twice is to settle once (`Document.settled_settled`), so it is the
same from the second time on when it is saved and loaded again and again. A document of the second
version may hold characters that make it unreadable once it is saved (`Document.cycle_unreadable`);
`Document.cycles_settle` tells both apart.
-/

namespace ModelIR

open Xml

namespace Xml

/-! ## Settling twice -/

theorem head?_padded (body : List Char) : (padded body).head?.any isWhiteSpace = true := by
  rw [padded]
  by_cases h : body.head?.any isWhiteSpace
  · rw [if_pos h, List.nil_append, List.head?_append]
    rcases hhead : body.head? with _ | c
    · simp [hhead] at h
    · rwa [hhead] at h
  · rw [if_neg h]
    rfl

theorem getLast?_padded (body : List Char) : (padded body).getLast?.any isWhiteSpace = true := by
  rw [padded]
  by_cases h : body.getLast?.any isWhiteSpace
  · rw [if_pos h, List.append_nil, List.getLast?_append]
    rcases hlast : body.getLast? with _ | c
    · simp [hlast] at h
    · rwa [hlast] at h
  · rw [if_neg h, List.getLast?_append]
    rfl

theorem padded_padded (body : List Char) : padded (padded body) = padded body := by
  rw [padded.eq_def (padded body), if_pos (head?_padded body), if_pos (getLast?_padded body),
    List.nil_append, List.append_nil]

theorem settle_flushText (run : List Char) : settle [] (flushText run) = flushText run := by
  by_cases h : run.all isBlank
  · rw [flushText, if_pos h]
    rfl
  · rw [flushText, if_neg h, settle, String.toList_ofList, List.nil_append, settle, flushText,
      if_neg h]

theorem settle_flushText_append {node : Node} (hnode : node.isText = false) (run : List Char)
    (nodes : List Node) : settle [] (flushText run ++ node :: nodes) =
      flushText run ++ node.settled :: settle [] nodes := by
  by_cases h : run.all isBlank
  · rw [flushText, if_pos h, List.nil_append, List.nil_append, settle_markup hnode]
    rfl
  · rw [flushText, if_neg h, List.singleton_append, settle, String.toList_ofList, List.nil_append,
      settle_markup hnode, flushText, if_neg h]

mutual

theorem Node.settled_settled : ∀ node : Node, node.settled.settled = node.settled
  | .element tag children => by rw [Node.settled, Node.settled, settle_settle [] children]
  | .text _ => rfl
  | .comment t => by
    rw [Node.settled, Node.settled, String.toList_ofList, padded_padded]
  | .instruction _ _ => rfl

/-- The run that is open goes over to the rest, so that the induction is over every run. -/
theorem settle_settle : ∀ (run : List Char) (nodes : List Node),
    settle [] (settle run nodes) = settle run nodes
  | run, [] => settle_flushText run
  | run, .text t :: nodes => settle_settle (run ++ t.toList) nodes
  | run, .element tag children :: nodes => by
    rw [settle_markup rfl, settle_flushText_append rfl,
      Node.settled_settled (.element tag children), settle_settle [] nodes]
  | run, .comment t :: nodes => by
    rw [settle_markup rfl, settle_flushText_append rfl, Node.settled_settled (.comment t),
      settle_settle [] nodes]
  | run, .instruction target data :: nodes => by
    rw [settle_markup rfl, settle_flushText_append rfl,
      Node.settled_settled (.instruction target data), settle_settle [] nodes]

end

theorem Element.settled_settled (e : Element) : e.settled.settled = e.settled := by
  rw [Element.settled, Element.settled, settle_settle]

end Xml

/-! ## Records -/

/-- A record of either kind. -/
inductive Record where
  | model (r : ModelRecord)
  | reference (r : ReferenceRecord)

namespace Record

def toElement : Record → Element
  | model r => r.toElement
  | reference r => r.toElement

/-- The values of all attributes may stand in a document. -/
def HasTexts (r : Record) : Prop :=
  ∀ a ∈ r.toElement.tag.attributes, IsText a.2

theorem HasTexts.plain {r : Record} (h : r.HasTexts) : r.toElement.Plain := by
  cases r with
  | model r => exact ModelRecord.plainWith h
  | reference r => exact ReferenceRecord.plainWith h

end Record

namespace Document

variable {p : Path} {kind : DocumentKind} {d : Document} {t t' : FileTree}
  {loaded : Except ManifestError Document}

/-- Adds records, one after the other. -/
def appendAll (d : Document) (records : List Record) : Document :=
  (records.map Record.toElement).foldl append d

theorem records_plain {records : List Record} (h : ∀ r ∈ records, r.HasTexts) :
    ∀ e ∈ records.map Record.toElement, e.Plain := by
  intro e he
  obtain ⟨r, hr, rfl⟩ := List.mem_map.1 he
  exact (h r hr).plain

/-- A document is as plain with the records as it is without them. -/
theorem appendAll_plain_iff (h : d.root.PlainWith anyChar) (hfits : d.Fits kind)
    {records : List Record} (hrecords : ∀ r ∈ records, r.HasTexts) :
    (d.appendAll records).root.PlainWith anyChar ∧
      ((d.appendAll records).root.Plain ↔ d.root.HasTexts) := by
  have hplain := records_plain hrecords
  obtain ⟨-, hany, hiff⟩ := edited h hfits fun e he =>
    Node.PlainWith.mono (fun _ _ => rfl) (hplain e he)
  exact ⟨hany, hiff.trans (and_iff_right hplain)⟩

theorem container_foldl_append : ∀ (rs : List Element) (d : Document),
    (rs.foldl append d).container = d.container
  | [], _ => rfl
  | r :: rs, d => container_foldl_append rs (d.append r)

theorem settled_settled (d : Document) : d.settled.settled = d.settled := by
  rw [settled, settled, Element.settled_settled]

theorem modelCount_settled (d : Document) : d.settled.modelCount = d.modelCount := by
  rw [modelCount_eq, modelCount_eq, records_settled]

/-! ## Cycles -/

/-- Saves a document and, if that succeeds, loads it again. -/
def cycle (kind : DocumentKind) (d : Document) (t : FileTree) :
    Except ManifestError (Except ManifestError Document × FileTree) :=
  match (d.save FileTree.files).run t with
  | (.error e, _) => .error e
  | (.ok _, t) => .ok ((load FileTree.files d.path kind).run t)

/-- Saves and loads a number of times, as long as saving succeeds, and up to the first load that
does not. -/
def cycles (kind : DocumentKind) : Nat → Document → FileTree →
    Except ManifestError (Except ManifestError Document × FileTree)
  | 0, d, t => .ok (.ok d, t)
  | n + 1, d, t =>
    match d.cycle kind t with
    | .ok (.ok d, t) => cycles kind n d t
    | failed => failed

/-- What is saved is what is opened to be loaded. -/
theorem of_cycle (h : d.cycle kind t = .ok (loaded, t')) :
    loaded = ofBytes d.path d.bytes kind ∧ t'.opened d.path = .ok (.file d.bytes) := by
  rw [cycle, Job.run_save] at h
  rcases hsave : t.saveDocument d with ⟨e | u, t₁⟩
  · simp [hsave] at h
  · have hsave' := FileTree.save_of_saveDocument hsave
    have hopened : (t.save d.path d.bytes).2.opened d.path = .ok (.file d.bytes) :=
      FileTree.opened_save (by rw [hsave'])
    rw [hsave'] at hopened
    simp only [hsave, Job.run_load, FileTree.document, hopened] at h
    obtain ⟨rfl, rfl⟩ := Prod.mk.inj (Except.ok.inj h)
    exact ⟨rfl, hopened⟩

/-- A plain document that is saved is loaded settled. -/
theorem cycle_ok (hplain : d.root.Plain) (hfits : d.Fits kind)
    (h : d.cycle kind t = .ok (loaded, t')) :
    loaded = .ok d.settled ∧ t'.opened d.path = .ok (.file d.bytes) := by
  obtain ⟨rfl, hopened⟩ := of_cycle h
  exact ⟨ofBytes_print hplain hfits, hopened⟩

/-- A document that is plain but for its characters cannot be read once it is saved. -/
theorem cycle_unreadable (hany : d.root.PlainWith anyChar) (hplain : ¬ d.root.Plain)
    (h : d.cycle kind t = .ok (loaded, t')) :
    loaded = .error (.malformed d.path) ∧ t'.opened d.path = .ok (.file d.bytes) := by
  obtain ⟨rfl, hopened⟩ := of_cycle h
  exact ⟨ofBytes_unreadable hany hplain, hopened⟩

theorem cycles_unreadable (hany : d.root.PlainWith anyChar) (hplain : ¬ d.root.Plain) (n : Nat)
    (h : d.cycles kind (n + 1) t = .ok (loaded, t')) :
    loaded = .error (.malformed d.path) ∧ t'.opened d.path = .ok (.file d.bytes) := by
  rw [cycles] at h
  rcases hcycle : d.cycle kind t with e | ⟨loaded₁, t₁⟩
  · simp [hcycle] at h
  · obtain ⟨rfl, hopened⟩ := cycle_unreadable hany hplain hcycle
    simp only [hcycle] at h
    obtain ⟨rfl, rfl⟩ := Prod.mk.inj (Except.ok.inj h)
    exact ⟨rfl, hopened⟩

/-- From the second time on, the same document is loaded, and the same bytes are saved. -/
theorem cycles_ok : ∀ (n : Nat) {d : Document} {t : FileTree}, d.root.Plain → d.Fits kind →
    d.cycles kind (n + 1) t = .ok (loaded, t') → loaded = .ok d.settled ∧
      t'.opened d.path = .ok (.file (if n = 0 then d.bytes else d.settled.bytes))
  | n, d, t, hplain, hfits, h => by
    rw [cycles] at h
    rcases hcycle : d.cycle kind t with e | ⟨loaded₁, t₁⟩
    · simp [hcycle] at h
    · obtain ⟨rfl, hopened⟩ := cycle_ok hplain hfits hcycle
      simp only [hcycle] at h
      cases n with
      | zero =>
        obtain ⟨rfl, rfl⟩ := Prod.mk.inj (Except.ok.inj h)
        exact ⟨rfl, hopened⟩
      | succ n =>
        have hsettled : d.settled.root.Plain := Node.PlainWith.settled (by decide) hplain
        obtain ⟨hloaded, hopened⟩ := cycles_ok n hsettled hfits.settled h
        rw [settled_settled, ite_self] at hopened
        rw [hloaded, settled_settled]
        exact ⟨rfl, hopened⟩

/-- A document that declares no namespace and uses no prefixed names is loaded, records are added
whose values may stand in a document, and it is saved and loaded again and again, as long as it is
saved. If its texts may stand in a document of any version, as those of a document of the first may,
what is loaded is the document settled, with the same place of records and the same number of them,
and from the second time on what is saved is the settled document. If some may not, it cannot be
read once it is saved. -/
theorem cycles_settle {t₀ : FileTree} {bytes : ByteArray}
    (hopened : t₀.opened p = .ok (.file bytes)) (hprefixes : HasNoPrefixes bytes)
    (hload : ((load FileTree.files p kind).run t₀).1 = .ok d) {records : List Record}
    (hrecords : ∀ r ∈ records, r.HasTexts) (n : Nat)
    (hcycles : (d.appendAll records).cycles kind (n + 1) t = .ok (loaded, t')) :
    (d.root.HasTexts → ∃ d', loaded = .ok d' ∧ d'.root = (d.appendAll records).root.settled ∧
      d'.container = d.container ∧ d'.modelCount = (d.appendAll records).modelCount ∧
      t'.opened p = .ok (.file (if n = 0 then (d.appendAll records).bytes else d'.bytes))) ∧
    (¬ d.root.HasTexts → loaded = .error (.malformed p) ∧
      t'.opened p = .ok (.file (d.appendAll records).bytes)) ∧
    (versionOf? bytes = some .one → d.root.HasTexts) := by
  rw [Job.run_load, FileTree.document, hopened] at hload
  obtain ⟨hparse, rfl, hfits⟩ := of_ofBytes hload
  obtain ⟨hany, hplain⟩ :=
    appendAll_plain_iff (plainWith_of_parse hprefixes hparse) hfits hrecords
  have hpath : (d.appendAll records).path = d.path := path_foldl_append _ d
  refine ⟨fun htexts => ?_, fun htexts => ?_, hasTexts_of_parse hprefixes hparse⟩
  · have hcontainer : (d.appendAll records).container = d.container := container_foldl_append _ d
    obtain ⟨hloaded, hopened'⟩ :=
      cycles_ok n (hplain.2 htexts) (hfits.foldl_append _) hcycles
    exact ⟨_, hloaded, rfl, hcontainer, modelCount_settled _, hpath ▸ hopened'⟩
  · rw [← hpath]
    exact cycles_unreadable hany (hplain.not.2 htexts) n hcycles

/-- A file that takes any content is saved as often as one likes. -/
theorem exists_cycles : ∀ (n : Nat) {d₀ d : Document} {t : FileTree}, t.Keeps p kind d₀ →
    d.path = p → d.Fits kind → d.root.Plain → ∃ loaded t', d.cycles kind n t = .ok (loaded, t')
  | 0, _, d, t, _, _, _, _ => ⟨.ok d, t, rfl⟩
  | n + 1, _, d, t, hkeeps, hpath, hfits, hplain => by
    obtain ⟨t₁, hsave, -, hkeeps₁, -⟩ := hkeeps.save d hpath hfits hplain
    obtain ⟨loaded, t', hcycles⟩ :=
      exists_cycles n (d := d.settled) hkeeps₁ hpath hfits.settled hkeeps₁.plain
    refine ⟨loaded, t', ?_⟩
    rw [cycles, cycle, Job.run_save, hsave]
    simp only [Job.run_load, hpath, hkeeps₁.document]
    exact hcycles

section Quoted

/-- A record whose name holds what has to be written in another way. -/
def quotedRecord : Record :=
  .model ⟨"\"<&>\t\n\r'", "FP16", "tf", "a", "a"⟩

theorem quotedRecord_hasTexts : ∀ r ∈ [quotedRecord], r.HasTexts := by
  rw [List.forall_mem_singleton]
  change ∀ a ∈ quotedRecord.toElement.tag.attributes, IsText a.2
  decide

open Job in
theorem exists_cycles_smallTree : ∃ d loaded t',
    ((load FileTree.files smallJob.testConf .tests).run smallTree).1 = .ok d ∧
    (d.appendAll [quotedRecord]).cycles .tests 2 smallTree = .ok (loaded, t') := by
  have hkeeps : smallTree.Keeps smallJob.testConf .tests _ :=
    keeps_smallFile tests_smallTree (tests_smallTree.accepts_iff.2 ⟨rfl, rfl⟩)
  have hany : Element.PlainWith anyChar smallRoot.settled :=
    Node.PlainWith.mono (fun _ _ => rfl) hkeeps.plain
  have hplain := (appendAll_plain_iff hany hkeeps.fits quotedRecord_hasTexts).2.2
    (hany.plain_iff.1 hkeeps.plain)
  obtain ⟨loaded, t', hcycles⟩ := exists_cycles 2 hkeeps (path_foldl_append _ _)
    (hkeeps.fits.foldl_append _) hplain
  exact ⟨_, loaded, t', hkeeps.document, hcycles⟩

open Job in
theorem exists_cycles_laterTree : ∃ loaded t',
    (appendAll ⟨smallJob.testConf, laterRoot, .models⟩ []).cycles .tests 1 laterTree =
      .ok (loaded, t') := by
  have haccepts : laterTree.Accepts smallJob.testConf := tests_laterTree.accepts_iff.2 ⟨rfl, rfl⟩
  obtain ⟨t₁, hsave⟩ : ∃ t₁,
      laterTree.saveDocument ⟨smallJob.testConf, laterRoot, .models⟩ = (.ok (), t₁) := by
    rw [FileTree.saveDocument, haccepts]
    exact ⟨_, rfl⟩
  change ∃ loaded t', cycles .tests 1 ⟨smallJob.testConf, laterRoot, .models⟩ laterTree = _
  rw [cycles, cycle, Job.run_save, hsave]
  simp only [Job.run_load]
  rcases t₁.document smallJob.testConf .tests with e | d <;> exact ⟨_, _, rfl⟩

open Job in
/-- Two cycles of a small document with a record, and one of a document of the second version that
cannot be read then. -/
theorem smallDocument_cycles :
    (∃ d loaded t', smallTree.opened smallJob.testConf = .ok (.file smallFile.content) ∧
      HasNoPrefixes smallFile.content ∧
      ((load FileTree.files smallJob.testConf .tests).run smallTree).1 = .ok d ∧
      (∀ r ∈ [quotedRecord], r.HasTexts) ∧
      (d.appendAll [quotedRecord]).cycles .tests 2 smallTree = .ok (loaded, t') ∧
      ∃ d', loaded = .ok d' ∧ d'.root = (d.appendAll [quotedRecord]).root.settled ∧
        d'.container = d.container ∧
        d'.modelCount = (d.appendAll [quotedRecord]).modelCount ∧
        t'.opened smallJob.testConf = .ok (.file d'.bytes)) ∧
    ∃ d loaded t', laterTree.opened smallJob.testConf = .ok (.file laterFile.content) ∧
      HasNoPrefixes laterFile.content ∧
      ((load FileTree.files smallJob.testConf .tests).run laterTree).1 = .ok d ∧
      (d.appendAll []).cycles .tests 1 laterTree = .ok (loaded, t') ∧
      loaded = .error (.malformed smallJob.testConf) := by
  constructor
  · obtain ⟨d, loaded, t', hload, hcycles⟩ := exists_cycles_smallTree
    obtain ⟨hsettles, -, hfirst⟩ := cycles_settle tests_smallTree.opened hasNoPrefixes_smallFile
      hload quotedRecord_hasTexts 1 hcycles
    exact ⟨d, loaded, t', tests_smallTree.opened, hasNoPrefixes_smallFile, hload,
      quotedRecord_hasTexts, hcycles, hsettles (hfirst (versionOf?_print smallRoot))⟩
  · obtain ⟨loaded, t', hcycles⟩ := exists_cycles_laterTree
    have hload : ((load FileTree.files smallJob.testConf .tests).run laterTree).1 =
        .ok ⟨smallJob.testConf, laterRoot, .models⟩ := document_laterTree
    obtain ⟨-, hfails, -⟩ := cycles_settle tests_laterTree.opened hasNoPrefixes_laterText
      hload (List.forall_mem_nil _) 0 hcycles
    exact ⟨_, loaded, t', tests_laterTree.opened, hasNoPrefixes_laterText, hload, hcycles,
      (hfails not_hasTexts_laterRoot).1⟩

end Quoted

end Document

end ModelIR

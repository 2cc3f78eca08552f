import ModelIR.CommandLine.Program
import ModelIR.Proofs.CommaItems

/-!
# Written arguments

An option is given its value in one argument, behind the first `=`, or in an argument of its own. To
read such arguments is to give the values one after the other (`readAll_given`), and that fails
exactly if an option comes twice (`giveAll_eq`). What is read is looked up option by option, so the
order of the arguments tells nothing, and a job is read back from every way to write it
(`parse_written`).
-/

namespace ModelIR.CommandLine

namespace Opt

theorem ofName?_name (opt : Opt) : ofName? opt.name = some opt := by
  cases opt <;> decide

theorem equals_not_mem_name (opt : Opt) : '=' ∉ opt.name.toList := by
  cases opt <;> decide

theorem mem_all (opt : Opt) : opt ∈ all := by
  cases opt <;> decide

end Opt

/-- An option with its value, in one argument or in two. -/
inductive Given where
  | joined (opt : Opt) (value : String)
  | apart (opt : Opt) (value : String)

namespace Given

def opt : Given → Opt
  | joined opt _ => opt
  | apart opt _ => opt

def value : Given → String
  | joined _ value => value
  | apart _ value => value

def args : Given → List String
  | joined opt value => [s!"--{opt.name}={value}"]
  | apart opt value => [s!"--{opt.name}", value]

/-- A path is not empty, and what stands in an argument of its own does not look like an option. -/
def Fits (g : Given) : Prop :=
  (g.opt.isPath → g.value ≠ "") ∧
    ∀ opt value, g = apart opt value → value = "-" ∨ value.toList.head? ≠ some '-'

end Given

/-! ## Arguments -/

theorem splitAssignment_joined (opt : Opt) (value : String) :
    splitAssignment (opt.name.toList ++ '=' :: value.toList) = (opt.name, some value) := by
  have hname : ∀ c ∈ opt.name.toList, decide (c ≠ '=') = true := by
    intro c hc
    have : c ≠ '=' := fun h => opt.equals_not_mem_name (h ▸ hc)
    simpa using this
  rw [splitAssignment, List.takeWhile_append_of_pos hname, List.dropWhile_append_of_pos hname]
  simp

theorem splitAssignment_name (opt : Opt) : splitAssignment opt.name.toList = (opt.name, none) := by
  cases opt <;> decide

theorem readAll_joined (s : State) (opt : Opt) (value : String) (args : List String) :
    readAll s (s!"--{opt.name}={value}" :: args) =
      s.settle >>= fun s => s.give opt (some value) >>= (readAll · args) := by
  have htext : (s!"--{opt.name}={value}").toList =
      '-' :: '-' :: (opt.name.toList ++ '=' :: value.toList) := by simp [toString]
  have hdashes : s!"--{opt.name}={value}" ≠ "--" := fun h => by simp [h] at htext
  have hread : readArgument s s!"--{opt.name}={value}" =
      s.settle >>= (·.give opt (some value)) := by
    simp only [readArgument, htext, readLong, splitAssignment_joined, Opt.ofName?_name]
  rw [readAll, if_neg hdashes, hread, bind_assoc]

theorem readAll_name (s : State) (opt : Opt) (args : List String) :
    readAll s (s!"--{opt.name}" :: args) =
      s.settle >>= fun s => readAll { s with pending := some (opt, none) } args := by
  have htext : (s!"--{opt.name}").toList = '-' :: '-' :: opt.name.toList := by simp [toString]
  have hdashes : s!"--{opt.name}" ≠ "--" := by cases opt <;> decide
  have hread : readArgument s s!"--{opt.name}" =
      s.settle >>= fun s => .ok { s with pending := some (opt, none) } := by
    simp only [readArgument, htext, readLong, splitAssignment_name, Opt.ofName?_name]
    rfl
  rw [readAll, if_neg hdashes, hread, bind_assoc]
  rfl

theorem readAll_value {value : String} (h : value = "-" ∨ value.toList.head? ≠ some '-')
    (s : State) (opt : Opt) (args : List String) :
    readAll { s with pending := some (opt, none) } (value :: args) =
      readAll { s with pending := some (opt, some value) } args := by
  have hdashes : value ≠ "--" := by
    rintro rfl
    simp at h
  have hread : readArgument { s with pending := some (opt, none) } value =
      .ok { s with pending := some (opt, some value) } := by
    rcases h with rfl | h
    · rfl
    · unfold readArgument
      split <;> simp_all [readValue]
  rw [readAll, if_neg hdashes, hread]
  rfl

def State.giveValue (s : State) (p : Opt × String) : Except Stop State :=
  s.give p.1 (some p.2)

theorem pending_give {s s' : State} {opt : Opt} {value : Option String}
    (h : s.give opt value = .ok s') : s'.pending = none := by
  unfold State.give at h
  split at h
  · simp at h
  · split_ifs at h
    obtain rfl := Except.ok.inj h
    rfl

theorem settle_of_pending {s : State} (h : s.pending = none) : s.settle = .ok s := by
  rw [State.settle, h]

/-- The values are given one after the other, that of an option that is open before them. -/
theorem readAll_given : ∀ (given : List Given) {s : State}, (∀ g ∈ given, g.Fits) →
    readAll s (given.flatMap Given.args) =
      s.settle >>= fun s => (given.map fun g => (g.opt, g.value)).foldlM State.giveValue s
  | [], s, _ => (bind_pure s.settle).symm
  | .joined opt value :: given, s, h => by
    obtain ⟨-, h⟩ := List.forall_mem_cons.1 h
    rw [List.flatMap_cons, Given.args, List.singleton_append, readAll_joined]
    refine bind_congr fun s' => ?_
    rw [List.map_cons, List.foldlM_cons]
    rcases hgive : s'.give opt (some value) with e | s''
    · simp only [State.giveValue, Given.opt, Given.value, hgive]
      rfl
    · simp only [State.giveValue, Given.opt, Given.value, hgive]
      change readAll s'' _ = _
      rw [readAll_given given h, settle_of_pending (pending_give hgive)]
      rfl
  | .apart opt value :: given, s, h => by
    obtain ⟨hfits, h⟩ := List.forall_mem_cons.1 h
    rw [List.flatMap_cons, Given.args, List.cons_append, List.singleton_append, readAll_name]
    refine bind_congr fun s' => ?_
    rw [readAll_value (hfits.2 opt value rfl), readAll_given given h]
    rfl

/-! ## Values -/

theorem lookup_isSome_iff_mem {opt : Opt} {values : List (Opt × String)} :
    (values.lookup opt).isSome = true ↔ opt ∈ values.map Prod.fst := by
  rw [List.lookup_isSome_iff, List.mem_map]
  exact exists_congr fun p => and_congr_right fun _ => beq_iff_eq.trans eq_comm

theorem giveValue_eq (s : State) {opt : Opt} {value : String} (h : opt.isPath → value ≠ "") :
    s.giveValue (opt, value) = if opt ∈ s.values.map Prod.fst then .error .argumentConflict
      else .ok { values := s.values ++ [(opt, value)] } := by
  have hempty : ¬ (opt.isPath && value.isEmpty) = true := by
    rw [Bool.and_eq_true, String.isEmpty_iff]
    exact fun ⟨hpath, hvalue⟩ => h hpath hvalue
  unfold State.giveValue State.give
  simp only [lookup_isSome_iff_mem, if_neg hempty]

/-- Values are given one after the other unless an option comes twice. -/
theorem giveAll_eq : ∀ (values : List (Opt × String)) {s : State}, s.pending = none →
    (s.values.map Prod.fst).Nodup → (∀ p ∈ values, p.1.isPath → p.2 ≠ "") →
      values.foldlM State.giveValue s =
        if ((s.values ++ values).map Prod.fst).Nodup then .ok { values := s.values ++ values }
        else .error .argumentConflict
  | [], s, hpending, hnodup, _ => by
    rw [List.append_nil, if_pos hnodup, ← hpending]
    rfl
  | (opt, value) :: values, s, hpending, hnodup, h => by
    obtain ⟨hvalue, h⟩ := List.forall_mem_cons.1 h
    rw [List.foldlM_cons, giveValue_eq s hvalue]
    by_cases hmem : opt ∈ s.values.map Prod.fst
    · have htwice : ¬ ((s.values ++ (opt, value) :: values).map Prod.fst).Nodup := by
        rw [List.map_append, List.map_cons, List.nodup_append]
        exact fun ⟨_, _, hne⟩ => hne opt hmem opt List.mem_cons_self rfl
      rw [if_pos hmem, if_neg htwice]
      rfl
    · have hnodup' : ((s.values ++ [(opt, value)]).map Prod.fst).Nodup := by
        rw [List.map_append, List.map_singleton, (List.perm_append_singleton opt _).nodup_iff]
        exact List.nodup_cons.2 ⟨hmem, hnodup⟩
      rw [if_neg hmem]
      change values.foldlM State.giveValue { values := s.values ++ [(opt, value)] } = _
      rw [giveAll_eq values rfl hnodup' h, List.append_assoc, List.singleton_append]

/-- Options that are given their values, in either way, are read if no option comes twice. -/
theorem readAll_eq (given : List Given) (h : ∀ g ∈ given, g.Fits) :
    readAll {} (given.flatMap Given.args) =
      if (given.map Given.opt).Nodup then .ok { values := given.map fun g => (g.opt, g.value) }
      else .error .argumentConflict := by
  have hpaths : ∀ p ∈ given.map fun g => (g.opt, g.value), p.1.isPath → p.2 ≠ "" := by
    intro p hp
    obtain ⟨g, hg, rfl⟩ := List.mem_map.1 hp
    exact (h g hg).1
  rw [readAll_given given h]
  change List.foldlM State.giveValue {} _ = _
  rw [giveAll_eq (s := {}) _ rfl List.nodup_nil hpaths, List.nil_append, List.map_map]
  rfl

/-! ## Jobs -/

/-- The list of a filter that an option is for. -/
def Opt.list (f : Filter) : Opt → List String
  | topology => f.topology
  | notTopology => f.notTopology
  | framework => f.framework
  | precision => f.precision
  | testConf | refsConf | irCacheDir => []

/-- The options that a job is written with: those for paths, and those for lists that are not
empty. -/
def optionsOf (job : Job) : List Opt :=
  Opt.all.filter fun opt => opt.isPath || !(opt.list job.filter).isEmpty

/-- What an option may be given for a job: a text that is the path, or one that spells the list. -/
def Tells (job : Job) (text : String) : Opt → Prop
  | .testConf => text ≠ "" ∧ Path.ofString text = job.testConf
  | .refsConf => text ≠ "" ∧ Path.ofString text = job.refsConf
  | .irCacheDir => text ≠ "" ∧ Path.ofString text = job.irCacheDir
  | .topology => CommaList.Spells job.filter.topology text
  | .notTopology => CommaList.Spells job.filter.notTopology text
  | .framework => CommaList.Spells job.filter.framework text
  | .precision => CommaList.Spells job.filter.precision text

variable {job : Job} {order : List Opt} {text : Opt → String}

theorem mem_optionsOf {opt : Opt} :
    opt ∈ optionsOf job ↔ opt.isPath ∨ opt.list job.filter ≠ [] := by
  simp [optionsOf, opt.mem_all]

theorem Tells.ne_empty {opt : Opt} {text : String} (h : Tells job text opt) (hpath : opt.isPath) :
    text ≠ "" := by
  cases opt <;> first | exact h.1 | cases hpath

theorem Tells.spells {opt : Opt} {text : String} (h : Tells job text opt) (hlist : ¬ opt.isPath) :
    CommaList.Spells (opt.list job.filter) text := by
  cases opt <;> first | exact h | exact absurd rfl hlist

theorem listValue_written (horder : order.Perm (optionsOf job))
    (htext : ∀ opt ∈ order, Tells job (text opt) opt)
    (hitems : ∀ opt : Opt, ∀ item ∈ opt.list job.filter, CommaList.IsItem item.toList)
    (opt : Opt) (hlist : ¬ opt.isPath) :
    Arguments.listValue (order.map fun opt => (opt, text opt)) opt = opt.list job.filter := by
  unfold Arguments.listValue
  by_cases hmem : opt ∈ order
  · rw [List.lookup_graph text hmem]
    exact CommaList.parse_of_spells (hitems opt) ((htext opt hmem).spells hlist)
  · have hnone : (order.map fun opt => (opt, text opt)).lookup opt = none := by
      rw [List.lookup_eq_none_iff]
      intro p hp
      obtain ⟨other, hother, rfl⟩ := List.mem_map.1 hp
      exact bne_iff_ne.2 fun heq => hmem (heq ▸ hother)
    have hempty : opt.list job.filter = [] := by
      rw [horder.mem_iff, mem_optionsOf] at hmem
      simpa [hlist] using hmem
    rw [hnone, hempty]
    rfl

theorem ofValues_written (horder : order.Perm (optionsOf job))
    (htext : ∀ opt ∈ order, Tells job (text opt) opt)
    (hitems : ∀ opt : Opt, ∀ item ∈ opt.list job.filter, CommaList.IsItem item.toList) :
    Arguments.ofValues (order.map fun opt => (opt, text opt)) = .ok
      { testConf := job.testConf, refsConf := job.refsConf, irCacheDir := some job.irCacheDir
        filter := job.filter } := by
  have hpath : ∀ opt : Opt, opt.isPath → opt ∈ order := fun opt h =>
    horder.mem_iff.2 (mem_optionsOf.2 (.inl h))
  have htest := hpath .testConf rfl
  have hrefs := hpath .refsConf rfl
  have hdir := hpath .irCacheDir rfl
  have hlists := listValue_written horder htext hitems
  unfold Arguments.ofValues
  rw [List.lookup_graph text htest, List.lookup_graph text hrefs, List.lookup_graph text hdir,
    hlists .topology nofun, hlists .notTopology nofun, hlists .framework nofun,
    hlists .precision nofun]
  simp only [Option.getD_some, Option.map_some, (htext _ htest).2, (htext _ hrefs).2,
    (htext _ hdir).2]
  rfl

/-- A job in its arguments, each option with its value behind `=`. -/
def writtenArgs (order : List Opt) (text : Opt → String) : List String :=
  order.map fun opt => s!"--{opt.name}={text opt}"

theorem writtenArgs_eq (order : List Opt) (text : Opt → String) :
    writtenArgs order text =
      (order.map fun opt => Given.joined opt (text opt)).flatMap Given.args := by
  rw [List.flatMap_map, writtenArgs]
  exact List.map_eq_flatMap

theorem nodup_order (horder : order.Perm (optionsOf job)) : order.Nodup := by
  have hall : Opt.all.Nodup := by decide
  exact horder.nodup_iff.2 (hall.filter _)

/-- A job is read back from its arguments in any order, and no option may be repeated among them. -/
theorem parse_written (horder : order.Perm (optionsOf job))
    (htext : ∀ opt ∈ order, Tells job (text opt) opt)
    (hitems : ∀ opt : Opt, ∀ item ∈ opt.list job.filter, CommaList.IsItem item.toList) :
    (∀ defaultDir, (Arguments.parse (writtenArgs order text)).map (·.toJob defaultDir) = .ok job) ∧
      ∀ front back, order = front ++ back → ∀ again : Given, again.opt ∈ order → again.Fits →
        Arguments.parse (writtenArgs front text ++ again.args ++ writtenArgs back text) =
          .error .argumentConflict := by
  have hfits : ∀ opts : List Opt, opts ⊆ order →
      ∀ g ∈ opts.map fun opt => Given.joined opt (text opt), g.Fits := by
    intro opts hopts g hg
    obtain ⟨opt, hopt, rfl⟩ := List.mem_map.1 hg
    exact ⟨(htext opt (hopts hopt)).ne_empty, nofun⟩
  have hopts : ∀ opts : List Opt,
      (opts.map fun opt => Given.joined opt (text opt)).map Given.opt = opts := by
    intro opts
    rw [List.map_map]
    exact List.map_id opts
  refine ⟨fun defaultDir => ?_, ?_⟩
  · rw [Arguments.parse, writtenArgs_eq, readAll_eq _ (hfits order (List.Subset.refl order)), hopts,
      if_pos (nodup_order horder), List.map_map]
    change (Arguments.ofValues (order.map fun opt => (opt, text opt))).map _ = _
    rw [ofValues_written horder htext hitems]
    rfl
  · rintro front back rfl again hagain hagainFits
    have hargs : writtenArgs front text ++ again.args ++ writtenArgs back text =
        (front.map (fun opt => Given.joined opt (text opt)) ++
          again :: back.map fun opt => Given.joined opt (text opt)).flatMap Given.args := by
      rw [List.flatMap_append, List.flatMap_cons, writtenArgs_eq, writtenArgs_eq, List.append_assoc]
    have hall : ∀ g ∈ front.map (fun opt => Given.joined opt (text opt)) ++
        again :: back.map (fun opt => Given.joined opt (text opt)), g.Fits :=
      List.forall_mem_append.2 ⟨hfits front (List.subset_append_left front back),
        List.forall_mem_cons.2 ⟨hagainFits, hfits back (List.subset_append_right front back)⟩⟩
    have htwice : ¬ (front ++ again.opt :: back).Nodup := fun h =>
      (List.nodup_cons.1 (List.perm_middle.nodup h)).1 hagain
    rw [Arguments.parse, hargs, readAll_eq _ hall, List.map_append, List.map_cons, hopts, hopts,
      if_neg htwice]
    rfl

/-- A job whose texts begin with dashes, contain `=` and look like options. -/
def dashedJob : Job where
  testConf := .ofString "-t=x"
  refsConf := .ofString "--refs_conf=r"
  irCacheDir := .ofString "c"
  filter := { topology := ["a b", "c"], notTopology := ["-d="] }

def dashedText : Opt → String
  | .testConf => "-t=x"
  | .refsConf => "--refs_conf=r"
  | .irCacheDir => "c"
  | .topology => "\u3000a b , c"
  | .notTopology => "-d="
  | _ => ""

theorem parse_dashedText :
    (Arguments.parse ["--not_topology=-d=", "--ir_cache_dir=c", "--topology=\u3000a b , c",
        "--refs_conf=--refs_conf=r", "--test_conf=-t=x"]).map (·.toJob (.ofString "d")) =
      .ok dashedJob ∧
    Arguments.parse ["--not_topology=-d=", "--ir_cache_dir=c", "--topology", "-",
        "--topology=\u3000a b , c", "--refs_conf=--refs_conf=r", "--test_conf=-t=x"] =
      .error .argumentConflict := by
  have horder : [Opt.notTopology, .irCacheDir, .topology, .refsConf, .testConf].Perm
      (optionsOf dashedJob) := by decide
  have htopology : CommaList.Spells ["a b", "c"] "\u3000a b , c" := by
    have hwide : ∀ c ∈ ['\u3000'], isWhiteSpace c := List.forall_mem_singleton.2 (by decide)
    have hspace : ∀ c ∈ [' '], isWhiteSpace c := List.forall_mem_singleton.2 (by decide)
    have hfirst : CommaList.Padded "a b".toList "\u3000a b ".toList :=
      ⟨['\u3000'], [' '], by simp, hwide, hspace⟩
    have hsecond : CommaList.Padded "c".toList " c".toList := ⟨[' '], [], by simp, hspace, by simp⟩
    exact ⟨_, .cons hfirst (.cons hsecond .nil), by simp [joinWith]⟩
  have hnot : CommaList.Spells ["-d="] "-d=" :=
    ⟨["-d=".toList], .cons (CommaList.padded_self _) .nil, rfl⟩
  have htext : ∀ opt ∈ [Opt.notTopology, .irCacheDir, .topology, .refsConf, .testConf],
      Tells dashedJob (dashedText opt) opt := by
    simp only [List.forall_mem_cons]
    exact ⟨hnot, ⟨by decide, rfl⟩, htopology, ⟨by decide, rfl⟩, ⟨by decide, rfl⟩, by simp⟩
  have hitems : ∀ opt : Opt, ∀ item ∈ opt.list dashedJob.filter, CommaList.IsItem item.toList := by
    intro opt
    cases opt <;> simp [Opt.list, dashedJob] <;> decide
  obtain ⟨hread, htwice⟩ := parse_written horder htext hitems
  exact ⟨hread (.ofString "d"), htwice [.notTopology, .irCacheDir] _ rfl (.apart .topology "-")
    (by decide) ⟨fun hpath => absurd hpath (by decide), by simp⟩⟩

end ModelIR.CommandLine

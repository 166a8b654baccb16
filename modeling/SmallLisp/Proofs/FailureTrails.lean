import SmallLisp.Proofs.FailedLoads

/-! # The trail of a failure

Files that are being loaded lie inside one another, and when something goes wrong in the innermost
of them, every one of them fails.  What the outermost load ends with then tells the whole story: an
error of the language is the failure of each load in progress, the outermost first, around the
error that started it (`Fault.through`), and this can be read off it in one way only
(`Fault.through_inj`).  A fault that is no error of the language comes out bare.

The moment at which something goes wrong is one of three (`Machine.GoesWrong`): a `require` asks for
a file whose load is refused, because the file is being loaded already or cannot be read; the text
of the innermost file cannot be read any further; or any other step complains.  From there the fault
passes through the loads in progress and nothing is added (`Machine.runs_fault`).

That the outermost of these loads is the one that was asked for at the beginning is an invariant of
its moments (`Machine.DuringLoad`), and who asked for the others is found on the way
(`Machine.Runs.asked`).  `Process.Reachable.failed_load_trail` puts this together.
-/
namespace SmallLisp
open Evaluation

/-- Whether a fault is not the failure of a load. -/
def Fault.isRoot : Fault → Bool
  | .lisp (.failedModule _ _) => false
  | _ => true

theorem Fault.isRoot_of_isOfLoad {f : Fault} (h : f.isOfLoad = false) : f.isRoot = true := by
  cases f with
  | lisp e =>
    cases e with
    | failedModule => cases h
    | _ => rfl
  | _ => rfl

theorem LispError.foldr_failedModule_inj {e e' : LispError} {paths others : List Path}
    (he : (Fault.lisp e).isRoot = true) (he' : (Fault.lisp e').isRoot = true)
    (h : paths.foldr failedModule e = others.foldr failedModule e') :
    e = e' ∧ paths = others := by
  induction paths generalizing others with
  | nil =>
    cases others with
    | nil => exact ⟨h, rfl⟩
    | cons other others =>
      cases h
      cases he
  | cons path paths ih =>
    cases others with
    | nil =>
      cases h
      cases he'
    | cons other others =>
      obtain ⟨rfl, hrest⟩ := failedModule.inj h
      obtain ⟨rfl, rfl⟩ := ih hrest
      exact ⟨rfl, rfl⟩

/-- The loads that failed and the error that started it are known from the failure. -/
theorem Fault.through_inj {f g : Fault} {paths others : List Path} (hf : f.isRoot = true)
    (hg : g.isRoot = true) (h : f.through paths = g.through others) :
    f = g ∧ ∀ e, f = .lisp e → paths = others := by
  rcases f with e | _ | _ | _ <;> rcases g with e' | _ | _ | _
  case lisp.lisp =>
    obtain ⟨rfl, rfl⟩ := LispError.foldr_failedModule_inj hf hg (Fault.lisp.inj h)
    exact ⟨rfl, fun _ _ => rfl⟩
  all_goals
    cases h
    try exact ⟨rfl, nofun⟩

theorem Refuses.isRoot {setting : Setting} {s : Store} {path : Path} {own : List Path}
    {root : Fault} (h : Refuses setting s path own root) : root.isRoot = true := by
  cases h with
  | circular => rfl
  | @unreadable e => exact Fault.isRoot_of_isOfLoad (isOfLoad_pathFault path e)

namespace Machine

variable {setting : Setting} {path : Path} {tasks : List Task} {s : Store} {m m' : Machine}

/-! ## The moment at which something goes wrong -/

/-- At a moment a `require` asks for the file at a path. -/
inductive AsksFor (setting : Setting) (path : Path) : Machine → Prop
  | intro {v : Value} {levels : Nat} {scope : FrameId} {specifier : String} {tasks : List Task}
      {s : Store} (hv : specifier? v = some specifier) (ha : Asks setting s scope specifier path) :
      AsksFor setting path ⟨.value v, .specifier levels scope :: tasks, s⟩

/-- At a moment something goes wrong.  The fault says what, and the paths are those of the loads
that fail with it although they have not begun. -/
inductive GoesWrong (setting : Setting) : Machine → List Path → Fault → Prop
  /-- A `require` asks for a file, and the load is refused. -/
  | refused {m : Machine} {path : Path} {own : List Path} {root : Fault}
      (ha : m.AsksFor setting path) (hr : Refuses setting m.store path own root) :
      GoesWrong setting m own root
  /-- The innermost file has been evaluated up to where its text cannot be read. -/
  | unread {v : Value} {path : Path} {levels : Nat} {scope : FrameId} {text : List Char}
      {stop : ReadingStop} {tasks : List Task} {s : Store}
      (hread : setting.files.readText setting.here path = .ok text)
      (hstop : (Script.ofText setting.nestingLimit (Text.trimStart text)).stop? = some stop) :
      GoesWrong setting ⟨.value v, .form (some path) levels scope [] (some stop) :: tasks, s⟩ []
        (stop.inModule path)
  /-- A step ends with a fault of another kind, and there was none before. -/
  | complains {m m' : Machine} {root : Fault} (hs : m.next setting = some m')
      (hbefore : ∀ f, m.control ≠ .fault f) (hafter : m'.control = .fault root)
      (hroot : root.isOfLoad = false) : GoesWrong setting m [] root

theorem GoesWrong.isRoot {own : List Path} {root : Fault} (h : m.GoesWrong setting own root) :
    root.isRoot = true := by
  cases h with
  | refused _ hr => exact hr.isRoot
  | @unread _ _ _ _ _ stop => cases stop <;> rfl
  | complains _ _ _ hroot => exact Fault.isRoot_of_isOfLoad hroot

/-- Only the load of a path that is being loaded goes wrong with the complaint about a circle. -/
theorem GoesWrong.of_circle {own : List Path}
    (h : m.GoesWrong setting own (.lisp (.circularRequire path))) :
    own = [path] ∧ m.AsksFor setting path ∧ path ∈ m.store.registry.loading := by
  generalize hroot : Fault.lisp (.circularRequire path) = root at h
  cases h with
  | @refused _ asked _ _ ha hr =>
    cases hr with
    | circular _ hl =>
      cases hroot
      exact ⟨rfl, ha, hl⟩
    | @unreadable e => cases e <;> cases hroot
  | @unread _ _ _ _ _ stop => cases stop <;> cases hroot
  | complains _ _ _ hload =>
    cases hroot
    cases hload

/-! ## The tasks of a load -/

/-- A task stands for no load, or it holds what stopped the reading of its file. -/
inductive Task.Reads (setting : Setting) : Task → Prop
  | other {task : Task} (hn : task.start? = none) : Reads setting task
  | file {path : Path} {levels : Nat} {scope : FrameId} {rest : List Value} {text : List Char}
      (hread : setting.files.readText setting.here path = .ok text) :
      Reads setting (.form (some path) levels scope rest
        (Script.ofText setting.nestingLimit (Text.trimStart text)).stop?)

theorem Quiet.reads (h : Quiet tasks s m) : m.Adds (Task.Reads setting) tasks :=
  h.above.imp fun _ hadded => hadded.imp_right fun hn task hmem => .other (hn task hmem)

theorem enterLoad_reads (setting : Setting) (levels : Nat) (path : Path) (tasks : List Task)
    (s : Store) :
    (enterLoad setting levels path tasks s).Adds (Task.Reads setting) tasks := by
  have hshape := enterLoad_shape setting levels path tasks s
  generalize enterLoad setting levels path tasks s = m at hshape ⊢
  cases hshape with
  | begins _ _ hread => exact adds_one rfl (.file hread)
  | _ => exact adds_nothing rfl

/-- A task that gets its value leaves the tasks below it where they are. -/
theorem resume_reads {task : Task} (ht : task.Reads setting) (v : Value) (tasks : List Task)
    (s : Store) : (resume setting v task tasks s).Adds (Task.Reads setting) tasks := by
  cases task with
  | head levels scope args => exact (continueCall_quiet levels scope v [] args).reads
  | argument levels scope f done rest =>
    exact (continueCall_quiet levels scope f (v :: done) rest).reads
  | definition scope name => exact adds_nothing rfl
  | branch levels scope consequence alternative? =>
    simp only [resume]
    split
    · exact adds_nothing rfl
    · cases alternative? <;> exact adds_nothing rfl
  | specifier levels scope =>
    simp only [resume]
    split
    · exact adds_nothing rfl
    next specifier _ =>
      have hshape := enterRequire_shape setting levels scope specifier tasks s
      generalize enterRequire setting levels scope specifier tasks s = m' at hshape ⊢
      cases hshape with
      | asks => exact enterLoad_reads setting levels _ tasks s
      | _ => exact adds_nothing rfl
  | form module? levels scope rest stop? =>
    cases rest with
    | cons expr rest =>
      refine adds_one rfl ?_
      cases ht with
      | other hn => exact .other (by cases module? <;> first | rfl | cases hn)
      | file hread => exact .file hread
    | nil => cases module? <;> cases stop? <;> exact adds_nothing rfl

/-- A moment of the load of a file that is made above no tasks: the load itself is the last of all
tasks, or else it is over. -/
inductive DuringLoad (setting : Setting) (path : Path) (m : Machine) : Prop
  | going (above : List Task) {levels : Nat} {scope : FrameId} {rest : List Value}
      {stop? : Option ReadingStop}
      (htasks : m.tasks = above ++ [.form (some path) levels scope rest stop?])
      (hreads : ∀ task ∈ m.tasks, task.Reads setting) : DuringLoad setting path m
  | ended (hdone : m.next setting = none) : DuringLoad setting path m

theorem LoadShape.duringLoad {levels : Nat} (h : LoadShape setting levels path [] s m) :
    DuringLoad setting path m := by
  cases h with
  | kept => exact .ended rfl
  | refused => exact .ended rfl
  | begins _ _ hread => exact .going [] rfl (List.forall_mem_singleton.2 (.file hread))

/-- Tasks that are put above those of a load are above the load. -/
theorem DuringLoad.of_added {above : List Task} {levels : Nat} {scope : FrameId}
    {rest : List Value} {stop? : Option ReadingStop}
    (hreads : ∀ task ∈ above ++ [.form (some path) levels scope rest stop?], task.Reads setting)
    (h : m.Adds (Task.Reads setting) (above ++ [.form (some path) levels scope rest stop?])) :
    DuringLoad setting path m := by
  obtain ⟨added, htasks, hadded⟩ := h
  refine .going (added ++ above) (htasks.trans (List.append_assoc _ _ _).symm) ?_
  rw [htasks]
  exact List.forall_mem_append.2 ⟨hadded, hreads⟩

theorem DuringLoad.step (h : DuringLoad setting path m) (hs : m.next setting = some m') :
    DuringLoad setting path m' := by
  obtain ⟨control, tasks, s⟩ := m
  cases h with
  | ended hdone =>
    rw [hdone] at hs
    cases hs
  | @going above levels scope rest stop? htasks hreads =>
    cases htasks
    cases control with
    | expr n e scope' =>
      cases n with
      | zero =>
        cases hs
        exact .going above rfl hreads
      | succ n =>
        cases hs
        exact .of_added hreads (enterExpr_quiet n e scope').reads
    | value v =>
      cases above with
      | nil =>
        cases hs
        cases rest with
        | cons expr rest =>
          obtain ⟨added, htasks, hadded⟩ :=
            resume_reads (List.forall_mem_singleton.1 hreads) v [] s
          refine .going [] rfl ?_
          rw [htasks, List.append_nil]
          exact hadded
        | nil => cases stop? <;> exact .ended rfl
      | cons task above =>
        cases hs
        obtain ⟨htask, hbelow⟩ := List.forall_mem_cons.1 hreads
        exact .of_added hbelow (resume_reads htask v _ s)
    | fault f =>
      cases above with
      | nil =>
        cases hs
        exact .ended rfl
      | cons task above =>
        cases hs
        refine .of_added (List.forall_mem_cons.1 hreads).2 (adds_nothing ?_)
        rcases task with _ | _ | _ | _ | _ | ⟨_ | other, _, _, _, _⟩ <;> rfl

theorem DuringLoad.runs (h : DuringLoad setting path m) (hr : Runs setting m m') :
    DuringLoad setting path m' := by
  induction hr with
  | refl => exact h
  | tail _ hs ih => exact ih.step hs

theorem loads_append (above below : List Task) :
    loads (above ++ below) = loads above ++ loads below := by
  induction above with
  | nil => rfl
  | cons task above ih =>
    rcases task with _ | _ | _ | _ | _ | ⟨_ | path, _, _, _, _⟩
    case form.some => exact congrArg (path :: ·) ih
    all_goals exact ih

/-- As long as the load goes on, it is the outermost. -/
theorem DuringLoad.getLast?_loads (h : DuringLoad setting path m) (hs : m.next setting = some m') :
    (loads m.tasks).getLast? = some path := by
  cases h with
  | going above htasks _ =>
    rw [htasks, loads_append]
    exact List.getLast?_concat
  | ended hdone =>
    rw [hdone] at hs
    cases hs

/-- A load in progress that was not in progress at the beginning of a run was asked for on the way,
while the one outside of it was the innermost. -/
theorem Runs.asked {inner : Path} {outside : List Path} (h : Runs setting m m')
    (hl : inner :: outside <:+ loads m'.tasks) :
    inner :: outside <:+ loads m.tasks ∨
      ∃ c, Runs setting m c ∧ Runs setting c m' ∧ c.AsksFor setting inner ∧
        loads c.tasks = outside := by
  induction h with
  | refl => exact .inl hl
  | @tail b b' hb hs ih =>
    -- what was in progress before the step was asked for before it
    suffices hstep : inner :: outside <:+ loads b.tasks ∨
        b.AsksFor setting inner ∧ loads b.tasks = outside by
      rcases hstep with hl | ⟨hasks, hloads⟩
      · rcases ih hl with hstart | ⟨c, hc, hcb, hasks⟩
        · exact .inl hstart
        · exact .inr ⟨c, hc, hcb.tail hs, hasks⟩
      · exact .inr ⟨b, hb, .single hs, hasks, hloads⟩
    cases next_loadStep hs with
    | quiet hloads _ _ => exact .inl (hloads ▸ hl)
    | begins hv ha _ _ hloads _ _ =>
      rw [hloads, List.suffix_cons_iff] at hl
      rcases hl with heq | hl
      · cases heq
        exact .inr ⟨.intro hv ha, rfl⟩
      · exact .inl hl
    | completes => exact .inl (hl.trans (List.suffix_cons _ _))
    | fails => exact .inl (hl.trans (List.suffix_cons _ _))

/-! ## From the moment to the failure -/

/-- A run that comes to a fault has begun with one, or some step of it was the one that brought the
fault. -/
theorem Runs.before_fault {f : Fault} (h : Runs setting m m') (hm' : m'.control = .fault f) :
    (∃ g, m.control = .fault g) ∨ ∃ c c' g, Runs setting m c ∧ c.next setting = some c' ∧
      (∀ g', c.control ≠ .fault g') ∧ c'.control = .fault g := by
  induction h generalizing f with
  | refl => exact .inl ⟨f, hm'⟩
  | @tail b b' hb hs ih =>
    by_cases hfault : ∃ g, b.control = .fault g
    · obtain ⟨g, hg⟩ := hfault
      exact ih hg
    · exact .inr ⟨b, b', f, hb, hs, fun g hg => hfault ⟨g, hg⟩, hm'⟩

theorem value_ne_fault (v : Value) (f : Fault) : Control.value v ≠ .fault f := nofun

/-- The fault of a step is what went wrong before it, passed through the loads that fail at once. -/
def Passes (setting : Setting) (m : Machine) (f : Fault) (tasks : List Task) : Prop :=
  ∃ own root, m.GoesWrong setting own root ∧
    f.through (loads tasks).reverse = root.through ((loads m.tasks).reverse ++ own)

theorem passes_of_complains {f : Fault} (hs : m.next setting = some m')
    (hbefore : ∀ g, m.control ≠ .fault g) (hafter : m'.control = .fault f)
    (hf : f.isOfLoad = false) (hl : loads m'.tasks = loads m.tasks) :
    Passes setting m f m'.tasks :=
  ⟨[], f, .complains hs hbefore hafter hf, by rw [hl, List.append_nil]⟩

theorem Quiet.passes {f : Fault} (h : Quiet tasks s m') (hs : m.next setting = some m')
    (hbefore : ∀ g, m.control ≠ .fault g) (hafter : m'.control = .fault f)
    (hl : Machine.loads tasks = Machine.loads m.tasks) : Passes setting m f m'.tasks := by
  have hplain := h.plain
  rw [hafter] at hplain
  exact passes_of_complains hs hbefore hafter (Fault.isOfLoad_of_isPlain hplain) (h.loads.trans hl)

/-- A `require` that ends with a fault at once is refused a load, or its specifier leads nowhere. -/
theorem passes_of_enterRequire {f : Fault} {v : Value} {specifier : String} {levels : Nat}
    {scope : FrameId} (hv : specifier? v = some specifier)
    (hf : (enterRequire setting levels scope specifier tasks s).control = .fault f) :
    Passes setting ⟨.value v, .specifier levels scope :: tasks, s⟩ f
      (enterRequire setting levels scope specifier tasks s).tasks := by
  have hs : next setting ⟨.value v, .specifier levels scope :: tasks, s⟩ =
      some (enterRequire setting levels scope specifier tasks s) := by
    simp only [next, resume, hv]
  have hshape := enterRequire_shape setting levels scope specifier tasks s
  generalize enterRequire setting levels scope specifier tasks s = m' at hs hshape hf ⊢
  cases hshape with
  | bound => cases hf
  | nowhere _ hp =>
    cases hf
    exact passes_of_complains hs (value_ne_fault v) rfl (isOfLoad_of_modulePath hp) rfl
  | @asks path ha =>
    have hload := enterLoad_shape setting levels path tasks s
    generalize enterLoad setting levels path tasks s = m' at hload hf ⊢
    cases hload with
    | refused hr =>
      cases hf
      exact ⟨_, _, .refused (.intro hv ha) hr, (Fault.through_append _ _ _).symm⟩
    | _ => cases hf

/-- A value that a task gets leads to a fault in one of the three ways. -/
theorem passes_of_resume {f : Fault} {task : Task} (ht : task.Reads setting) (v : Value)
    (tasks : List Task) (s : Store)
    (hf : (resume setting v task tasks s).control = .fault f) :
    Passes setting ⟨.value v, task :: tasks, s⟩ f (resume setting v task tasks s).tasks := by
  cases task with
  | head levels scope args =>
    exact (continueCall_quiet levels scope v [] args).passes rfl (value_ne_fault v) hf rfl
  | argument levels scope g done rest =>
    exact (continueCall_quiet levels scope g (v :: done) rest).passes rfl (value_ne_fault v) hf rfl
  | definition scope name => cases hf
  | branch levels scope consequence alternative? =>
    simp only [resume] at hf
    split at hf
    · cases hf
    · split at hf <;> cases hf
  | specifier levels scope =>
    have hs : next setting ⟨.value v, .specifier levels scope :: tasks, s⟩ =
        some (resume setting v (.specifier levels scope) tasks s) := rfl
    simp only [resume] at hs hf ⊢
    rcases hv : specifier? v with _ | specifier
    · rw [hv] at hs hf
      exact (Quiet.fault (isPlain_wrongType _ v)).passes hs (value_ne_fault v) hf rfl
    · rw [hv] at hf
      exact passes_of_enterRequire hv hf
  | form module? levels scope rest stop? =>
    cases rest with
    | cons expr rest => cases hf
    | nil =>
      cases ht with
      | other hn =>
        cases module? with
        | some path => cases hn
        | none =>
          rcases stop? with _ | _ | _
          · cases hf
          · exact passes_of_complains rfl (value_ne_fault v) hf (by cases hf; rfl) rfl
          · exact passes_of_complains rfl (value_ne_fault v) hf (by cases hf; rfl) rfl
      | @file path _ _ _ text hread =>
        rcases hstop : (Script.ofText setting.nestingLimit (Text.trimStart text)).stop? with _ | stop
        · rw [hstop] at hf
          cases hf
        · rw [hstop] at hf
          cases hf
          refine ⟨[], _, .unread hread hstop, ?_⟩
          simp only [resume, continueForms, loads, List.reverse_cons, List.append_nil,
            Fault.through_append, Fault.through_singleton]

/-- **A step that brings a fault is one at which something goes wrong.** -/
theorem DuringLoad.passes {f : Fault} (h : DuringLoad setting path m)
    (hs : m.next setting = some m') (hbefore : ∀ g, m.control ≠ .fault g)
    (hafter : m'.control = .fault f) : Passes setting m f m'.tasks := by
  obtain ⟨control, tasks, s⟩ := m
  cases h with
  | ended hdone =>
    rw [hdone] at hs
    cases hs
  | going _ _ hreads =>
    cases control with
    | expr levels e scope =>
      cases levels with
      | zero =>
        cases hs
        exact passes_of_complains rfl nofun hafter (by cases hafter; rfl) rfl
      | succ levels =>
        have hnext := hs
        cases hs
        exact (enterExpr_quiet levels e scope).passes hnext nofun hafter rfl
    | value v =>
      cases tasks with
      | nil => cases hs
      | cons task tasks =>
        cases hs
        exact passes_of_resume (hreads task List.mem_cons_self) v tasks s hafter
    | fault f => exact absurd rfl (hbefore f)

/-- Where the load of a file that begins ends with a fault, something went wrong on the way, and the
fault is what it became in passing through the loads in progress. -/
theorem DuringLoad.failure {f : Fault} {t : Store} (h : DuringLoad setting path m)
    (hm : ∀ g, m.control ≠ .fault g) (hr : Runs setting m ⟨.fault f, [], t⟩) :
    ∃ c own root, Runs setting m c ∧ c.GoesWrong setting own root ∧
      f = root.through ((loads c.tasks).reverse ++ own) ∧
      (loads c.tasks).getLast? = some path := by
  rcases hr.before_fault rfl with ⟨g, hg⟩ | ⟨c, c', g, hc, hs, hbefore, hafter⟩
  · exact absurd hg (hm g)
  · obtain ⟨own, root, hwrong, hpasses⟩ := (h.runs hc).passes hs hbefore hafter
    refine ⟨c, own, root, hc, hwrong, ?_, (h.runs hc).getLast?_loads hs⟩
    obtain ⟨control, tasks, s⟩ := c'
    cases hafter
    -- the machine has only one end, and the fault gets there
    obtain ⟨u, hu⟩ := runs_fault setting g tasks s
    cases hr.done_unique ((hc.tail hs).trans hu) rfl rfl
    exact hpasses

end Machine

namespace Process

variable {code : Value → Prop} {P : Process} {path : Path}

/-- **The failure of a load is the trail of the loads in progress.**  When the load of a file fails,
there is a moment at which something goes wrong, and the failure is what went wrong then, passed
through the loads in progress, the outermost first, and through the load that was refused if that is
what went wrong: an error of the language as the failure of each of them, and any other fault as it
is.  What went wrong is not itself the failure of a load.  Either the load that fails is refused
itself; or the loads in progress are, on top of those that were in progress before, a row that
begins with the file, in which every other file was required while the one outside of it was the
innermost. -/
theorem Reachable.failed_load_trail (hP : Reachable code P) {setting : Setting}
    (hk : setting.keepsModules = true) {levels : Nat} {f : Fault} {t : Store}
    (hf : (load setting (eval setting levels) path).run P.store = (.error f, t)) :
    let start := Machine.enterLoad setting (levels + 4) path [] P.store
    ∃ own root, root.isRoot = true ∧
      (Refuses setting P.store path own root ∧ f = root.through own ∨
      ∃ m, Machine.Runs setting start m ∧ m.GoesWrong setting own root ∧
        f = root.through ((Machine.loads m.tasks).reverse ++ own) ∧
        m.store.registry.loading = Machine.loads m.tasks ++ P.store.registry.loading ∧
        (Machine.loads m.tasks).getLast? = some path ∧
        ∀ inner outer rest, inner :: outer :: rest <:+ Machine.loads m.tasks →
          ∃ c, Machine.Runs setting start c ∧ Machine.Runs setting c m ∧
            c.AsksFor setting inner ∧ Machine.loads c.tasks = outer :: rest) := by
  intro start
  have hbalanced : Machine.Balanced P.store.registry.loading start :=
    hP.balanced_enterLoad hk (levels + 4) path
  have hruns : Machine.Runs setting start ⟨.fault f, [], t⟩ := Machine.runs_of_load_fails hf
  have hshape : Machine.LoadShape setting (levels + 4) path [] P.store start :=
    Machine.enterLoad_shape setting (levels + 4) path [] P.store
  have hduring := hshape.duringLoad
  generalize start = m at hbalanced hruns hshape hduring ⊢
  cases hshape with
  | kept => cases hruns.eq_of_done rfl
  | refused hr =>
    cases hruns.eq_of_done rfl
    exact ⟨_, _, hr.isRoot, .inl ⟨hr, rfl⟩⟩
  | begins =>
    obtain ⟨c, own, root, hc, hwrong, htrail, hlast⟩ := hduring.failure nofun hruns
    refine ⟨own, root, hwrong.isRoot, .inr ⟨c, hc, hwrong, htrail, (hbalanced.runs hk hc).loading,
      hlast, fun inner outer rest hsuffix => ?_⟩⟩
    rcases hc.asked hsuffix with hstart | hasked
    · -- at the beginning there is one load only
      have hlength := hstart.length_le
      simp [Machine.loads] at hlength
    · exact hasked

/-- The load of a file that requires itself fails with the complaint about the circle, twice as the
failure of the load: once because the load is in progress, once because it is refused. -/
theorem failed_load_trail_of_self_require :
    let P : Process := ⟨[4], SelfFile.setting, ⟨.value .nil, [], SelfFile.before⟩⟩
    Reachable Value.IsCode P ∧
    (load SelfFile.setting (eval SelfFile.setting 975) SelfFile.path).run P.store =
      (.error SelfFile.failure, SelfFile.afterwards) ∧
    ∃ m, Machine.Runs SelfFile.setting
        (Machine.enterLoad SelfFile.setting 979 SelfFile.path [] P.store) m ∧
      m.AsksFor SelfFile.setting SelfFile.path ∧
      Machine.loads m.tasks = [SelfFile.path] ∧ m.store.registry.loading = [SelfFile.path] := by
  intro P
  have hP : Reachable Value.IsCode P := ⟨SelfFile.setting, rfl, .single (.interpreter rfl)⟩
  refine ⟨hP, SelfFile.run_load, ?_⟩
  obtain ⟨own, root, hroot, hcases⟩ := hP.failed_load_trail rfl SelfFile.run_load
  have htrail : SelfFile.failure =
      (Fault.lisp (.circularRequire SelfFile.path)).through [SelfFile.path, SelfFile.path] := rfl
  rw [htrail] at hcases
  rcases hcases with ⟨hr, hf⟩ | ⟨m, hm, hwrong, hf, hloading, -, -⟩
  · obtain ⟨rfl, hown⟩ := Fault.through_inj rfl hroot hf
    obtain rfl := hown _ rfl
    cases hr
  · obtain ⟨rfl, hpaths⟩ := Fault.through_inj rfl hroot hf
    obtain ⟨rfl, hasks, -⟩ := hwrong.of_circle
    have houter : [SelfFile.path] = (Machine.loads m.tasks).reverse :=
      (List.append_left_inj [SelfFile.path]).1 (hpaths _ rfl)
    have hloads : Machine.loads m.tasks = [SelfFile.path] := List.reverse_eq_iff.1 houter.symm
    rw [hloads] at hloading
    exact ⟨m, hm, hasks, hloads, hloading⟩

end Process

end SmallLisp

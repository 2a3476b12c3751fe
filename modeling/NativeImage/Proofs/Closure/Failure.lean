import NativeImage.Proofs.Closure.Worklist

/-!
# Which failure a closure reports

A round expands its whole frontier before it looks at any result. Several nodes of a round can
fail, then; the failure of the first of them is the one that is reported, and what their siblings
need is not asked for any more. Up to this round the closure goes as it would if failing nodes
needed nothing.

## Main definitions

- `PureContext.Fails`, `PureContext.FailsWith` — failing nodes, and which of their failures counts
- `PureContext.cut` — the context in which a node that fails needs nothing
- `PureContext.questions` — what is asked about a node, up to the first failure

## Main statements

- `PureContext.advance_questions` — a round, whether or not something fails in it
- `PureContext.Rounds.exists_end` — rounds go on as far as those of the cut context do without a
  failing node in the frontier
- `PureContext.closure_reports_first_failure` — when a closure fails, with which failure, and what
  it has asked by then
-/

namespace NativeImage

/-! ## The first failure of a list -/

/-- Either every entry has a result, or there is a first one that fails, and its failure is that of
the list. -/
theorem mapM_cases {ε α β : Type} (f : α → Except ε β) (list : List α) :
    (∃ bs, list.mapM f = .ok bs ∧ ∀ a ∈ list, ∃ b, f a = .ok b) ∨
      ∃ before a after e, list = before ++ a :: after ∧ (∀ b ∈ before, ∃ c, f b = .ok c) ∧
        f a = .error e ∧ list.mapM f = .error e := by
  induction list with
  | nil => exact .inl ⟨[], rfl, List.forall_mem_nil _⟩
  | cons head rest ih =>
    rw [List.mapM_cons]
    cases hhead : f head with
    | error e => exact .inr ⟨[], head, rest, e, rfl, List.forall_mem_nil _, hhead, rfl⟩
    | ok b =>
      obtain ⟨bs, hrest, hall⟩ | ⟨before, a, after, e, rfl, hbefore, ha, hrest⟩ := ih
      · rw [hrest]
        exact .inl ⟨b :: bs, rfl, List.forall_mem_cons.2 ⟨⟨b, hhead⟩, hall⟩⟩
      · rw [hrest]
        exact .inr ⟨head :: before, a, after, e, rfl,
          List.forall_mem_cons.2 ⟨⟨b, hhead⟩, hbefore⟩, ha, rfl⟩

/-- Outcomes that are collected and looked at afterwards fail as a list does that stops at the
first failure. -/
theorem allOrFirstFailure_map {Failure α β : Type} (f : α → Except Failure β) (list : List α) :
    allOrFirstFailure (list.map f) = list.mapM f := by
  induction list with
  | nil => rfl
  | cons head rest ih =>
    rw [List.map_cons, List.mapM_cons]
    cases hhead : f head with
    | error e => rfl
    | ok b =>
      rw [allOrFirstFailure, ih]
      cases rest.mapM f <;> rfl

/-- Marked nodes stay in front of all that are marked later. -/
theorem Closure.isPrefix_run {State Failure Node Request : Type} [DecidableEq Node]
    {context : DependencyContext State Failure Node Request} {bound : Nat} {c d : Closure Node}
    {s t : State} (h : c.run context bound s = .ok d t) : c.nodes <+: d.nodes := by
  induction bound generalizing c s with
  | zero =>
    cases h
    exact List.prefix_refl _
  | succ bound ih =>
    by_cases hdone : c.frontier = []
    · rw [run_of_frontier_eq_nil hdone] at h
      cases h
      exact List.prefix_refl _
    · rw [run_of_frontier_ne_nil hdone] at h
      obtain ⟨next, u, hnext, h⟩ := bind_eq_ok.1 h
      obtain ⟨needed, hneeded, rfl⟩ := advance_eq_ok hnext
      have hexpanded := expanded_next (length_of_mapM hneeded).symm
      have hstep : c.nodes <+: (c.next needed).nodes := by
        rw [nodes.eq_1 (c.next needed), hexpanded]
        exact List.prefix_append _ _
      exact hstep.trans (ih h)

namespace PureContext

variable {Failure Node Request : Type} {context : PureContext Failure Node Request}
  {roots : List Node} {node : Node}

/-! ## Failing nodes -/

/-- Asking for the dependencies of the node fails, or resolving one of its requests does. -/
def Fails (context : PureContext Failure Node Request) (node : Node) : Prop :=
  (∃ failure, context.dependencies node = .error failure) ∨
    ∃ requests, context.dependencies node = .ok requests ∧
      ∃ request ∈ requests, ∃ failure, context.resolve request = .error failure

/-- The failure of a node is that of the question for its dependencies, or else that of the first
of its requests that fails. -/
inductive FailsWith (context : PureContext Failure Node Request) (node : Node) : Failure → Prop
  | dependencies {failure : Failure} (h : context.dependencies node = .error failure) :
    FailsWith context node failure
  | request {before after : List Request} {request : Request} {failure : Failure}
    (hdeps : context.dependencies node = .ok (before ++ request :: after))
    (hbefore : ∀ earlier ∈ before, ∃ other, context.resolve earlier = .ok other)
    (h : context.resolve request = .error failure) : FailsWith context node failure

theorem FailsWith.fails {failure : Failure} (h : context.FailsWith node failure) :
    context.Fails node := by
  cases h with
  | dependencies h => exact .inl ⟨failure, h⟩
  | @request before after request _ hdeps _ h =>
    exact .inr ⟨_, hdeps, request, List.mem_append_right _ List.mem_cons_self, failure, h⟩

/-- Expanding a node succeeds unless it fails, and then with the failure that counts. -/
theorem expand_cases (context : PureContext Failure Node Request) (node : Node) :
    (context.expand node = .ok (context.needs node) ∧ ¬ context.Fails node) ∨
      ∃ failure, context.expand node = .error failure ∧ context.FailsWith node failure := by
  rw [needs]
  cases hdeps : context.dependencies node with
  | error failure =>
    refine .inr ⟨failure, ?_, .dependencies hdeps⟩
    rw [expand, hdeps]
    rfl
  | ok requests =>
    have hexpand : context.expand node = requests.mapM context.resolve := by
      rw [expand, hdeps]
      rfl
    obtain ⟨needed, hneeded, hall⟩ | ⟨before, request, after, failure, rfl, hbefore, hrequest,
      hfails⟩ := mapM_cases context.resolve requests
    · refine .inl ⟨by rw [hexpand, hneeded]; rfl, ?_⟩
      rintro (⟨failure, h⟩ | ⟨requests', h, request, hmem, failure, hrequest⟩)
      · cases hdeps.symm.trans h
      · cases hdeps.symm.trans h
        obtain ⟨other, hother⟩ := hall request hmem
        cases hother.symm.trans hrequest
    · exact .inr ⟨failure, hexpand.trans hfails, .request hdeps hbefore hrequest⟩

theorem expand_of_not_fails (h : ¬ context.Fails node) :
    context.expand node = .ok (context.needs node) := by
  obtain ⟨hexpand, -⟩ | ⟨failure, -, hfails⟩ := context.expand_cases node
  · exact hexpand
  · exact absurd hfails.fails h

theorem not_fails_of_expand {needed : List Node} (h : context.expand node = .ok needed) :
    ¬ context.Fails node := by
  obtain ⟨-, hfails⟩ | ⟨failure, hexpand, -⟩ := context.expand_cases node
  · exact hfails
  · cases h.symm.trans hexpand

theorem failsWith_of_expand {failure : Failure} (h : context.expand node = .error failure) :
    context.FailsWith node failure := by
  obtain ⟨hexpand, -⟩ | ⟨failure', hexpand, hfails⟩ := context.expand_cases node
  · cases h.symm.trans hexpand
  · cases h.symm.trans hexpand
    exact hfails

/-- If some nodes of a list fail, expanding the list fails with the failure of the first of them. -/
theorem exists_first_failure {list : List Node} (h : ∃ node ∈ list, context.Fails node) :
    ∃ before first after failure, list = before ++ first :: after ∧
      (∀ node ∈ before, ¬ context.Fails node) ∧ context.FailsWith first failure ∧
      list.mapM context.expand = .error failure := by
  obtain ⟨-, -, hall⟩ | ⟨before, first, after, failure, hsplit, hbefore, hfirst, hfails⟩ :=
    mapM_cases context.expand list
  · obtain ⟨node, hn, hf⟩ := h
    obtain ⟨needed, hneeded⟩ := hall node hn
    exact absurd hf (not_fails_of_expand hneeded)
  · refine ⟨before, first, after, failure, hsplit, fun node hn => ?_, failsWith_of_expand hfirst,
      hfails⟩
    obtain ⟨needed, hneeded⟩ := hbefore node hn
    exact not_fails_of_expand hneeded

/-! ## The cut context -/

/-- The context in which a node that fails needs nothing. -/
def cut (context : PureContext Failure Node Request) : PureContext Failure Node Request where
  dependencies node :=
    match context.expand node with
    | .ok _ => context.dependencies node
    | .error _ => .ok []
  resolve := context.resolve

/-- Nothing fails in the cut context. -/
theorem expand_cut (context : PureContext Failure Node Request) (node : Node) :
    context.cut.expand node = .ok (context.needs node) := by
  rw [needs]
  cases hexpand : context.expand node with
  | error failure =>
    have hdeps : context.cut.dependencies node = .ok [] := by
      simp only [cut, hexpand]
    rw [expand, hdeps]
    rfl
  | ok needed =>
    have hdeps : context.cut.dependencies node = context.dependencies node := by
      simp only [cut, hexpand]
    rw [expand, hdeps]
    exact hexpand

theorem needs_cut (context : PureContext Failure Node Request) :
    context.cut.needs = context.needs := by
  funext node
  rw [needs, expand_cut]
  rfl

theorem neverFails_cut (context : PureContext Failure Node Request) (roots : List Node) :
    context.cut.NeverFails roots := by
  intro node _
  obtain ⟨requests, hdeps, hresolved⟩ := expand_eq_ok.1 (context.expand_cut node)
  exact ⟨requests, hdeps, exists_resolved_iff.1 ⟨_, hresolved⟩⟩

/-- The cut leads nowhere else. -/
theorem Reachable.of_cut (h : context.cut.Reachable roots node) :
    context.Reachable roots node := by
  induction h with
  | root hm => exact .root hm
  | @step node other requests request _ hdeps hmem hres ih =>
    simp only [cut] at hdeps
    split at hdeps
    · exact .step ih hdeps hmem hres
    · cases hdeps
      cases hmem

/-! ## Questions up to the first failure -/

/-- Requests that are resolved one after another until one fails, which is the last. -/
def tried (context : PureContext Failure Node Request) : List Request → List Request
  | [] => []
  | request :: rest =>
    match context.resolve request with
    | .ok _ => request :: tried context rest
    | .error _ => [request]

/-- The questions asked to expand a node: for its dependencies, and then for those of its requests
that are tried. -/
def questions (context : PureContext Failure Node Request) (node : Node) :
    List (ContextCall Node Request) :=
  .dependencies node :: (context.tried (context.requestsOf node)).map .resolve

/-- A request that fails is the last one tried. -/
theorem tried_append {before after : List Request} {request : Request} {failure : Failure}
    (hbefore : ∀ earlier ∈ before, ∃ other, context.resolve earlier = .ok other)
    (h : context.resolve request = .error failure) :
    context.tried (before ++ request :: after) = before ++ [request] := by
  induction before with
  | nil => simp only [List.nil_append, tried, h]
  | cons earlier before ih =>
    obtain ⟨⟨other, hother⟩, hrest⟩ := List.forall_mem_cons.1 hbefore
    simp only [List.cons_append, tried, hother, ih hrest]

/-- An outcome together with the state in which it is known. -/
def known {State Result : Type} (outcome : Except Failure Result) (state : State) :
    EStateM.Result Failure State Result :=
  match outcome with
  | .ok result => .ok result state
  | .error failure => .error failure state

/-- Requests are resolved up to the first one that fails. -/
theorem resolve_tried (requests : List Request) (log : List (ContextCall Node Request)) :
    requests.mapM context.logged.resolve log = known (requests.mapM context.resolve)
      (((context.tried requests).map .resolve).reverse ++ log) := by
  induction requests generalizing log with
  | nil => rfl
  | cons request rest ih =>
    rw [List.mapM_cons, List.mapM_cons, bind_apply]
    cases hrequest : context.resolve request with
    | error failure =>
      simp only [logged, tried, hrequest]
      rfl
    | ok other =>
      simp only [logged, tried, hrequest] at ih ⊢
      rw [bind_apply, ih, List.map_cons, List.reverse_cons, List.append_assoc]
      cases rest.mapM context.resolve <;> rfl

/-- About a node that fails at a request, the questions end with this request. -/
theorem questions_of_request {before after : List Request} {request : Request} {failure : Failure}
    (hdeps : context.dependencies node = .ok (before ++ request :: after))
    (hbefore : ∀ earlier ∈ before, ∃ other, context.resolve earlier = .ok other)
    (h : context.resolve request = .error failure) :
    context.questions node = .dependencies node :: (before ++ [request]).map .resolve := by
  have hrequests : context.requestsOf node = before ++ request :: after := by
    rw [requestsOf, hdeps]
    rfl
  rw [questions, hrequests, tried_append hbefore h]

/-- Expanding a node, whether or not it fails. -/
theorem expand_questions (node : Node) (log : List (ContextCall Node Request)) :
    Closure.expand context.logged node log = known (context.expand node)
      ((context.questions node).reverse ++ log) := by
  rw [Closure.expand, expand, bind_apply, questions, requestsOf]
  cases hdeps : context.dependencies node with
  | error failure =>
    simp only [logged, hdeps]
    rfl
  | ok requests =>
    have hresolve := context.resolve_tried requests (.dependencies node :: log)
    simp only [logged, hdeps] at hresolve ⊢
    rw [hresolve, List.reverse_cons, List.append_assoc]
    rfl

/-- The whole list is expanded, also behind a node that fails. -/
theorem attempts_questions (list : List Node) (log : List (ContextCall Node Request)) :
    (list.mapM fun node => attempt context.logged.isFatal (Closure.expand context.logged node))
      log = .ok (list.map context.expand) ((list.flatMap context.questions).reverse ++ log) := by
  induction list generalizing log with
  | nil => rfl
  | cons node rest ih =>
    have hnode : attempt context.logged.isFatal (Closure.expand context.logged node) log =
        .ok (context.expand node) ((context.questions node).reverse ++ log) := by
      rw [attempt, expand_questions]
      cases context.expand node <;> rfl
    rw [List.mapM_cons, bind_of_ok hnode, bind_of_ok (ih _), List.flatMap_cons,
      List.reverse_append, List.append_assoc]
    rfl

/-- The questions of a round come on top of those of the rounds before it. -/
theorem questions_nodes (closure : Closure Node) :
    (closure.frontier.flatMap context.questions).reverse ++
        ((closure.expanded.map (·.1)).flatMap context.questions).reverse =
      (closure.nodes.flatMap context.questions).reverse := by
  rw [Closure.nodes, List.flatMap_append, List.reverse_append]

variable [DecidableEq Node] {closure : Closure Node} {log : List (ContextCall Node Request)}

/-- A round, whether or not something fails in it. -/
theorem advance_questions (closure : Closure Node) (log : List (ContextCall Node Request)) :
    closure.advance context.logged log = known
      ((closure.frontier.mapM context.expand).map closure.next)
      ((closure.frontier.flatMap context.questions).reverse ++ log) := by
  rw [Closure.advance, bind_of_ok (attempts_questions closure.frontier log),
    allOrFirstFailure_map]
  cases closure.frontier.mapM context.expand <;> rfl

/-! ## Rounds until something fails -/

namespace Rounds

variable {last : Closure Node} {cutLog : List (ContextCall Node Request)}

/-- Rounds go on as those of the cut context do, to the end or to a frontier in which a node fails.
The outcome is then that of expanding this frontier. -/
theorem exists_end (hfin : {node | context.cut.Reachable roots node}.Finite)
    (h : context.cut.Rounds roots closure cutLog)
    (hexpanded : ∀ node ∈ closure.expanded.map (·.1), ¬ context.Fails node) :
    ∃ last lastLog, context.cut.Rounds roots last lastLog ∧
      (∀ node ∈ last.expanded.map (·.1), ¬ context.Fails node) ∧
      (last.frontier ≠ [] → ∃ node ∈ last.frontier, context.Fails node) ∧
      ∀ bound, {node | context.cut.Reachable roots node}.ncard ≤ closure.rounds + bound →
        closure.run context.logged bound
            ((closure.expanded.map (·.1)).flatMap context.questions).reverse =
          known ((last.frontier.mapM context.expand).map fun _ => last)
            (last.nodes.flatMap context.questions).reverse := by
  have hok := context.neverFails_cut roots
  -- the induction is on the rounds that are still possible
  induction hleft : {node | context.cut.Reachable roots node}.ncard - closure.rounds
    generalizing closure cutLog with
  | zero =>
    have hdone : closure.frontier = [] := by
      by_contra hne
      have := h.rounds_lt hfin hok hne
      omega
    refine ⟨closure, cutLog, h, hexpanded, fun hne => absurd hdone hne, fun bound _ => ?_⟩
    rw [Closure.run_of_frontier_eq_nil hdone, ← questions_nodes, hdone]
    rfl
  | succ left ih =>
    by_cases hdone : closure.frontier = []
    · refine ⟨closure, cutLog, h, hexpanded, fun hne => absurd hdone hne, fun bound _ => ?_⟩
      rw [Closure.run_of_frontier_eq_nil hdone, ← questions_nodes, hdone]
      rfl
    · have hlt := h.rounds_lt hfin hok hdone
      by_cases hfails : ∃ node ∈ closure.frontier, context.Fails node
      · refine ⟨closure, cutLog, h, hexpanded, fun _ => hfails, fun bound hbound => ?_⟩
        obtain ⟨bound, rfl⟩ : ∃ n, bound = n + 1 := ⟨bound - 1, by omega⟩
        obtain ⟨-, -, -, failure, -, -, -, hfailure⟩ := exists_first_failure hfails
        rw [Closure.run_of_frontier_ne_nil hdone, bind_apply, advance_questions, hfailure,
          questions_nodes]
        rfl
      · have hneeded : closure.frontier.mapM context.expand =
            .ok (closure.frontier.map context.needs) :=
          mapM_eq_map fun node hn => expand_of_not_fails fun hf => hfails ⟨node, hn, hf⟩
        have hnext := h.next hdone
        rw [needs_cut] at hnext
        have hnodes : (closure.next (closure.frontier.map context.needs)).expanded.map (·.1) =
            closure.nodes := Closure.expanded_next (by simp)
        have hround : (closure.next (closure.frontier.map context.needs)).rounds =
            closure.rounds + 1 := rfl
        obtain ⟨last, lastLog, hlast, hgood, hbad, hrun⟩ := ih hnext (fun node hn => by
          rw [hnodes] at hn
          rcases List.mem_append.1 hn with hold | hnew
          · exact hexpanded node hold
          · exact fun hf => hfails ⟨node, hnew, hf⟩) (by omega)
        refine ⟨last, lastLog, hlast, hgood, hbad, fun bound hbound => ?_⟩
        obtain ⟨bound, rfl⟩ : ∃ n, bound = n + 1 := ⟨bound - 1, by omega⟩
        rw [Closure.run_of_frontier_ne_nil hdone, bind_apply, advance_questions, hneeded,
          questions_nodes, ← hnodes]
        exact hrun bound (by omega)

/-- A closure that goes on from some round does what it would have done from the start. -/
theorem run_eq (hok : context.NeverFails roots) (h : context.Rounds roots closure log)
    (bound : Nat) : (Closure.start roots).run context.logged (closure.rounds + bound) [] =
      closure.run context.logged bound log := by
  induction h generalizing bound with
  | start =>
    rw [show (Closure.start roots).rounds = 0 from rfl, Nat.zero_add]
  | @next closure log h hne ih =>
    have hround : (closure.next (closure.frontier.map context.needs)).rounds + bound =
        closure.rounds + (bound + 1) := by
      rw [show (closure.next (closure.frontier.map context.needs)).rounds =
        closure.rounds + 1 from rfl, Nat.add_assoc, Nat.add_comm 1 bound]
    have hfrontier (node : Node) (hn : node ∈ closure.frontier) : context.Reachable roots node :=
      h.reachable hok node (List.mem_append_right _ hn)
    rw [hround, ih, Closure.run_of_frontier_ne_nil hne,
      bind_of_ok (advance_logged hok hfrontier log)]

end Rounds

/-! ## The failure of a closure -/

/-- If the rounds end at a frontier in which a node fails, the first such node is the first failing
one in the order of discovery, and the rounds have marked the nodes up to its distance. -/
theorem Rounds.exists_first (h : context.cut.Rounds roots closure log)
    (hexpanded : ∀ node ∈ closure.expanded.map (·.1), ¬ context.Fails node)
    (hfails : ∃ node ∈ closure.frontier, context.Fails node) :
    ∃ before first after failure, closure.nodes = before ++ first :: after ∧
      (∀ node ∈ before, ¬ context.Fails node) ∧ context.FailsWith first failure ∧
      closure.frontier.mapM context.expand = .error failure ∧
      ∀ node, context.cut.Reachable roots node → (node ∈ closure.nodes ↔
        context.cut.distance roots node ≤ context.cut.distance roots first) := by
  have hlevels := h.levels (context.neverFails_cut roots)
  obtain ⟨before, first, after, failure, hsplit, hbefore, hfirst, hfailure⟩ :=
    exists_first_failure hfails
  have hmem : first ∈ closure.frontier := by
    rw [hsplit]
    exact List.mem_append_right _ List.mem_cons_self
  refine ⟨closure.expanded.map (·.1) ++ before, first, after, failure, ?_, fun node hn => ?_,
    hfirst, hfailure, fun node hn => ?_⟩
  · rw [Closure.nodes, hsplit, List.append_assoc]
  · rcases List.mem_append.1 hn with hold | hnew
    · exact hexpanded node hold
    · exact hbefore node hnew
  · rw [hlevels.mem_nodes_iff hn, hlevels.frontier_eq first hmem]

variable [DecidableEq Request]

/-- For every dependency context and all roots from which finitely many nodes are reachable if
failing nodes lead nowhere: the closure fails exactly if one of these nodes fails, and otherwise
ends as it does without the failing nodes. The failure is that of the first failing node in the
order of discovery. By then the dependencies have been asked for once for every node up to the end
of the round of this node, that is, up to its distance from the roots, and for no other node. The
questions about each of these nodes end with the first request that fails. -/
theorem closure_reports_first_failure (context : PureContext Failure Node Request)
    (roots : List Node) (hfin : {node | context.cut.Reachable roots node}.Finite) :
    ∃ closure cutLog,
      (∀ bound, {node | context.cut.Reachable roots node}.ncard ≤ bound →
        (Closure.start roots).run context.cut.logged bound [] = .ok closure cutLog) ∧
      closure.frontier = [] ∧
      (∀ node, node ∈ closure.nodes ↔ context.cut.Reachable roots node) ∧
      (∀ bound, {node | context.cut.Reachable roots node}.ncard ≤ bound →
        (∀ last log, (Closure.start roots).run context.logged bound [] = .ok last log →
          last = closure) ∧
        ((∃ failure log, (Closure.start roots).run context.logged bound [] = .error failure log) ↔
          ∃ node, context.cut.Reachable roots node ∧ context.Fails node) ∧
        ∀ failure log, (Closure.start roots).run context.logged bound [] = .error failure log →
          ∃ before first after called, closure.nodes = before ++ first :: after ∧
            (∀ node ∈ before, ¬ context.Fails node) ∧ context.FailsWith first failure ∧
            called <+: closure.nodes ∧
            (∀ node ∈ closure.nodes, node ∈ called ↔
              context.cut.distance roots node ≤ context.cut.distance roots first) ∧
            (∀ node, log.count (.dependencies node) = if node ∈ called then 1 else 0) ∧
            log = (called.flatMap context.questions).reverse) ∧
      ∀ node before request after failure,
        context.dependencies node = .ok (before ++ request :: after) →
        (∀ earlier ∈ before, ∃ other, context.resolve earlier = .ok other) →
        context.resolve request = .error failure →
        context.questions node = .dependencies node :: (before ++ [request]).map .resolve := by
  have hok := context.neverFails_cut roots
  obtain ⟨closure, cutLog, hclosure, hdone, hrun⟩ := exists_rounds hfin hok
  have hmarked (node : Node) : node ∈ closure.nodes ↔ context.cut.Reachable roots node :=
    hclosure.mem_nodes_iff hok hdone
  obtain ⟨last, lastLog, hlast, hgood, hbad, hends⟩ :=
    Rounds.start.exists_end hfin (List.forall_mem_nil _)
  -- the cut context goes on from where the rounds have ended
  have hcontinues : last.run context.cut.logged
      {node | context.cut.Reachable roots node}.ncard lastLog = .ok closure cutLog := by
    rw [← hlast.run_eq hok]
    exact hrun _ (Nat.le_add_left _ _)
  obtain ⟨later, hlater⟩ := Closure.isPrefix_run hcontinues
  refine ⟨closure, cutLog, hrun, hdone, hmarked, fun bound hbound => ?_,
    fun node before request after failure => questions_of_request⟩
  have houtcome : (Closure.start roots).run context.logged bound [] =
      known ((last.frontier.mapM context.expand).map fun _ => last)
        (last.nodes.flatMap context.questions).reverse :=
    hends bound (hbound.trans (Nat.le_add_left _ _))
  rw [houtcome]
  by_cases hfrontier : last.frontier = []
  · obtain rfl : closure = last := by
      rw [Closure.run_of_frontier_eq_nil hfrontier] at hcontinues
      cases hcontinues
      rfl
    rw [hfrontier]
    refine ⟨?_, ⟨?_, ?_⟩, ?_⟩
    · rintro last log h
      cases h
      rfl
    · rintro ⟨failure, log, h⟩
      cases h
    · rintro ⟨node, hn, hfails⟩
      rw [← hmarked, ← map_expanded hdone] at hn
      exact absurd hfails (hgood node hn)
    · rintro failure log h
      cases h
  · obtain ⟨before, first, after, failure, hsplit, hbefore, hfirst, hfailure, hdistance⟩ :=
      hlast.exists_first hgood (hbad hfrontier)
    have hnodes : closure.nodes = before ++ first :: (after ++ later) := by
      rw [← hlater, hsplit, List.append_assoc, List.cons_append]
    have hreach : context.cut.Reachable roots first := by
      rw [← hmarked, hnodes]
      exact List.mem_append_right _ List.mem_cons_self
    rw [hfailure]
    refine ⟨?_, ⟨fun _ => ⟨first, hreach, hfirst.fails⟩, fun _ => ⟨failure, _, rfl⟩⟩, ?_⟩
    · rintro last log h
      cases h
    · rintro failure log h
      cases h
      refine ⟨before, first, after ++ later, last.nodes, hnodes, hbefore, hfirst,
        ⟨later, hlater⟩, fun node hn => hdistance node ((hmarked node).1 hn), fun node => ?_,
        rfl⟩
      rw [List.count_reverse]
      exact count_dependencies_asked (fun node => context.tried (context.requestsOf node))
        hlast.nodup_nodes node

end PureContext

/-! ## Tables -/

namespace DependencyTable

variable (table : DependencyTable) (roots : List Int)

theorem finite_cut : {node | table.context.cut.Reachable roots node}.Finite :=
  (table.finite_reachable roots).subset fun _ hn => hn.of_cut

theorem ncard_cut_le : {node | table.context.cut.Reachable roots node}.ncard ≤
    table.nodeBound roots :=
  (Set.ncard_le_ncard (fun _ hn => hn.of_cut) (table.finite_reachable roots)).trans
    (table.ncard_reachable_le roots)

/-- Two nodes of one round fail, the first of them at a request between others, and so would a node
that is needed beside them. -/
def faulty : DependencyTable where
  requests := [(1, [2, 3, 4]), (2, [5]), (3, [6, 13, 7]), (4, [8])]
  aliases := []
  badNodes := [4, 5]
  badRequests := [13]

theorem faulty_reports_first_failure :
    ∃ (closure : Closure Int) (log : List (ContextCall Int Int)) (first : Int),
      faulty.closure [1] [] = .error (.request 13) log ∧ first ∈ closure.nodes ∧
      faulty.context.FailsWith first (.request 13) ∧ 5 ∈ closure.nodes ∧
      log.count (.dependencies 4) = 1 ∧ log.count (.dependencies 5) = 0 ∧
      log.count (.resolve 6) = 1 ∧ log.count (.resolve 7) = 0 := by
  obtain ⟨closure, cutLog, hcut, -, -, hends, -⟩ :=
    PureContext.closure_reports_first_failure faulty.context [1] (faulty.finite_cut [1])
  have hclosure := hcut _ (faulty.ncard_cut_le [1])
  obtain ⟨-, -, hreports⟩ := hends _ (faulty.ncard_cut_le [1])
  obtain ⟨before, first, after, called, hnodes, -, hfirst, -⟩ := hreports (.request 13) _ rfl
  refine ⟨closure, _, first, rfl, ?_, hfirst, ?_, rfl, rfl, rfl, rfl⟩
  · rw [hnodes]
    exact List.mem_append_right _ List.mem_cons_self
  · cases hclosure
    decide

end DependencyTable

end NativeImage

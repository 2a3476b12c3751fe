import NativeImage.Proofs.Closure.Justified
import NativeImage.Proofs.CompilationUnit.Relocation

/-!
# The compiled nodes are a least fixed point

Expanding nodes changes the image: nodes are made when they are first asked for, and so are
instances and thunks. Still, the answers given early in a closure hold in the image that it leaves.
In terms of that one image, the compiled nodes are the least set that has the roots and whatever its
members need, and asking again what they need changes nothing any more.

## Main definitions

- `CompilationUnit.Reaches` — what the roots need, as one image tells it

## Main statements

- `CompilationUnit.mark_justified` — marked nodes, their roots and their order
- `CompilationUnit.compile_marks` — a compiled unit has the marked nodes
- `CompilationUnit.compile_least_fixed_point` — compiled nodes, and what they need
-/

namespace NativeImage.CompilationUnit

open ImageM

variable {unit : CompilationUnit} {bodies : CodeBodies} {methods : List MethodId} {s t : Image}

/-- A table of the unit, the node of one of the methods, or a node that a request of such a node
stands for; in an image that gives all these answers without a change. -/
inductive Reaches (unit : CompilationUnit) (bodies : CodeBodies) (tables : List NodeId)
    (methods : List MethodId) (image : Image) : NodeId → Prop
  | table {id : NodeId} (h : id ∈ tables) : Reaches unit bodies tables methods image id
  | method {method : MethodId} {id : NodeId} (hm : method ∈ methods)
      (h : unit.resolve (.call method) image = .ok id image) :
      Reaches unit bodies tables methods image id
  | need {id other : NodeId} {requests : List Request} {request : Request}
      (h : Reaches unit bodies tables methods image id)
      (hdeps : unit.dependencies bodies id image = .ok requests image)
      (hmem : request ∈ requests) (hres : unit.resolve request image = .ok other image) :
      Reaches unit bodies tables methods image other

/-- Whether an operation has given a result. -/
def succeeds {Failure State α : Type} : EStateM.Result Failure State α → Bool
  | .ok .. => true
  | .error .. => false

theorem exists_ok_of_succeeds {Failure State α : Type} {result : EStateM.Result Failure State α}
    (h : succeeds result = true) : ∃ a t, result = .ok a t := by
  cases result with
  | ok a t => exact ⟨a, t, rfl⟩
  | error e t => cases h

/-- Whether an operation has given a result and left a state that pass a test. -/
def succeedsWith {Failure State α : Type} (test : α → State → Bool) :
    EStateM.Result Failure State α → Bool
  | .ok a t => test a t
  | .error .. => false

theorem exists_ok_of_succeedsWith {Failure State α : Type} {test : α → State → Bool}
    {result : EStateM.Result Failure State α} (h : succeedsWith test result = true) :
    ∃ a t, result = .ok a t ∧ test a t = true := by
  cases result with
  | ok a t => exact ⟨a, t, rfl, h⟩
  | error e t => cases h

/-- An expansion that leaves the image as it is consists of answers that do. -/
theorem expand_same {id : NodeId} {needed : List NodeId}
    (h : Closure.expand (unit.dependencyContext bodies) id s = .ok needed s) :
    ∃ requests, unit.dependencies bodies id s = .ok requests s ∧
      List.Forall₂ (fun request other => unit.resolve request s = .ok other s) requests needed := by
  obtain ⟨requests, u, hdeps, hres⟩ := bind_eq_ok.1 h
  have hgrows : u ≤ s := (Settles.mapM fun request _ => unit.resolve_settles request).grows hres
  refine ⟨requests, (unit.dependencies_settles bodies id).again hdeps hgrows, ?_⟩
  exact Settles.mapM_again (fun request _ => unit.resolve_settles request) hres

/-- The roots of a closure that was not refused, and why each of its nodes is marked. -/
theorem mark_justified {closure : Closure NodeId}
    (h : unit.mark bodies methods s = .ok closure t) :
    ∃ tables u methodRoots, unit.attach s = .ok tables u ∧ u ≤ t ∧
      List.Forall₂ (fun method id => unit.resolve (.call method) t = .ok id t)
        methods methodRoots ∧
      closure.frontier = [] ∧
      Closure.Explored (unit.dependencyContext bodies) (tables ++ methodRoots) closure t ∧
      Closure.Justified (tables ++ methodRoots) closure := by
  obtain ⟨tables, u, hattach, hrest⟩ := bind_eq_ok.1 h
  obtain ⟨methodRoots, v, hresolve, hclose⟩ := bind_eq_ok.1 hrest
  rw [close, get_bind_apply] at hclose
  obtain ⟨marked, w, hrun, hdone⟩ := bind_eq_ok.1 hclose
  obtain ⟨hexplored, hvw⟩ := Closure.run_explored (unit.dependencies_settles bodies)
    unit.resolve_settles (.start _ _ v) hrun
  have hjustified := Closure.run_justified (.start _) hrun
  have huv : u ≤ v := (Settles.mapM fun method _ => unit.resolve_settles (.call method)).grows
    hresolve
  split at hdone
  · rename_i hempty
    obtain ⟨rfl, rfl⟩ := pure_eq_ok.1 hdone
    have hroots : List.Forall₂ (fun method id => unit.resolve (.call method) w = .ok id w)
        methods methodRoots :=
      (Settles.mapM_again (fun method _ => unit.resolve_settles (.call method)) hresolve).imp
        fun method id hid => (unit.resolve_settles (.call method)).again hid hvw
    exact ⟨tables, u, methodRoots, hattach, huv.trans hvw, hroots, List.isEmpty_iff.1 hempty,
      hexplored, hjustified⟩
  · cases hdone

/-- A compiled unit has the marked nodes. -/
theorem compile_marks {compiled : CompiledUnit}
    (h : unit.compile bodies methods s = .ok compiled t) :
    ∃ closure, unit.mark bodies methods s = .ok closure t ∧
      compiled.nodes.map (·.id) = closure.nodes := by
  obtain ⟨closure, hmark, hids, -, -⟩ := compile_spec h
  exact ⟨closure, hmark, hids⟩

/-- No node is compiled twice. -/
theorem compile_nodup {compiled : CompiledUnit}
    (h : unit.compile bodies methods s = .ok compiled t) : (compiled.nodes.map (·.id)).Nodup := by
  obtain ⟨closure, hmark, hids⟩ := compile_marks h
  obtain ⟨_, _, _, _, _, _, _, _, hjustified⟩ := mark_justified hmark
  rw [hids]
  exact hjustified.nodup

/-- What a node of a finished closure needs, asked again. -/
theorem needed_again {roots : List NodeId} {closure : Closure NodeId}
    (hexplored : Closure.Explored (unit.dependencyContext bodies) roots closure t)
    (hdone : closure.frontier = []) {id : NodeId} (hid : id ∈ closure.nodes) :
    ∃ requests, unit.dependencies bodies id t = .ok requests t ∧
      ∀ request ∈ requests, ∃ other ∈ closure.nodes, unit.resolve request t = .ok other t := by
  obtain ⟨needed, hexpand, hneeded⟩ := hexplored.exists_expansion hdone hid
  obtain ⟨requests, hdeps, hres⟩ := expand_same hexpand
  refine ⟨requests, hdeps, fun request hr => ?_⟩
  obtain ⟨other, hother, hresolve⟩ := exists_mem_of_forall₂ hres.flip hr
  exact ⟨other, hneeded other hother, hresolve⟩

/-- Marked nodes are reached, and no others are. -/
theorem reaches_iff_marked {tables methodRoots : List NodeId} {closure : Closure NodeId}
    (hmethods : List.Forall₂ (fun method id => unit.resolve (.call method) t = .ok id t)
      methods methodRoots)
    (hdone : closure.frontier = [])
    (hexplored : Closure.Explored (unit.dependencyContext bodies) (tables ++ methodRoots) closure t)
    (hjustified : Closure.Justified (tables ++ methodRoots) closure) (id : NodeId) :
    id ∈ closure.nodes ↔ Reaches unit bodies tables methods t id := by
  constructor
  · refine hjustified.induction (fun node hroot => ?_) (fun entry he hentry node hn => ?_) id
    · rcases List.mem_append.1 hroot with htable | hroot
      · exact .table htable
      · obtain ⟨method, hm, hres⟩ := exists_mem_of_forall₂ hmethods hroot
        exact .method hm hres
    · obtain ⟨requests, hdeps, hres⟩ := expand_same (hexplored.expands entry he)
      obtain ⟨request, hr, hresolve⟩ := exists_mem_of_forall₂ hres hn
      exact .need hentry hdeps hr hresolve
  · intro h
    induction h with
    | table h => exact hexplored.roots_mem _ (List.mem_append_left _ h)
    | @method method id hm h =>
      obtain ⟨root, hroot, hres⟩ := exists_mem_of_forall₂ hmethods.flip hm
      cases h.symm.trans hres
      exact hexplored.roots_mem _ (List.mem_append_right _ hroot)
    | @need id other requests request _ hdeps hmem hres ih =>
      obtain ⟨requests', hdeps', hall⟩ := needed_again hexplored hdone ih
      cases hdeps.symm.trans hdeps'
      obtain ⟨other', hmarked, hres'⟩ := hall request hmem
      cases hres.symm.trans hres'
      exact hmarked

/-- The nodes of a compiled unit are a least fixed point in the image that the compilation leaves.
No node is compiled twice. Each one is a table from the attachment, the node of a method asked for,
or what a request of an earlier node stands for. Asking a compiled node again for its requests, and
resolving them, gives compiled nodes and leaves the image with all its nodes, types and methods as
it is; and nothing is compiled that the tables and the methods do not lead to. -/
theorem compile_least_fixed_point {compiled : CompiledUnit} {image final : Image}
    (h : unit.compile bodies methods image = .ok compiled final) :
    (compiled.nodes.map (·.id)).Nodup ∧
    ∃ tables attached, unit.attach image = .ok tables attached ∧ attached ≤ final ∧
      (∀ before emitted after, compiled.nodes = before ++ emitted :: after →
        emitted.id ∈ tables ∨
        (∃ method ∈ methods, unit.resolve (.call method) final = .ok emitted.id final) ∨
        ∃ earlier ∈ before, ∃ requests,
          unit.dependencies bodies earlier.id final = .ok requests final ∧
          ∃ request ∈ requests, unit.resolve request final = .ok emitted.id final) ∧
      (∀ emitted ∈ compiled.nodes, ∃ requests,
        unit.dependencies bodies emitted.id final = .ok requests final ∧
        ∀ request ∈ requests, ∃ target ∈ compiled.nodes,
          unit.resolve request final = .ok target.id final) ∧
      ∀ id, id ∈ compiled.nodes.map (·.id) ↔ Reaches unit bodies tables methods final id := by
  obtain ⟨closure, hmark, hids⟩ := compile_marks h
  obtain ⟨tables, attached, methodRoots, hattach, hle, hmethods, hdone, hexplored, hjustified⟩ :=
    mark_justified hmark
  rw [hids]
  refine ⟨hjustified.nodup, tables, attached, hattach, hle, fun before emitted after hsplit => ?_,
    fun emitted he => ?_, reaches_iff_marked hmethods hdone hexplored hjustified⟩
  · have hnodes : closure.nodes = before.map (·.id) ++ emitted.id :: after.map (·.id) := by
      rw [← hids, hsplit, List.map_append, List.map_cons]
    rcases hjustified.cause _ _ _ hnodes with hroot | ⟨entry, he, hbefore, hneeds⟩
    · rcases List.mem_append.1 hroot with htable | hroot
      · exact .inl htable
      · obtain ⟨method, hm, hres⟩ := exists_mem_of_forall₂ hmethods hroot
        exact .inr (.inl ⟨method, hm, hres⟩)
    · obtain ⟨earlier, hearlier, hid⟩ := List.mem_map.1 hbefore
      obtain ⟨requests, hdeps, hres⟩ := expand_same (hexplored.expands entry he)
      obtain ⟨request, hr, hresolve⟩ := exists_mem_of_forall₂ hres hneeds
      rw [← hid] at hdeps
      exact .inr (.inr ⟨earlier, hearlier, requests, hdeps, request, hr, hresolve⟩)
  · have hid : emitted.id ∈ closure.nodes := by
      rw [← hids]
      exact List.mem_map_of_mem he
    obtain ⟨requests, hdeps, hall⟩ := needed_again hexplored hdone hid
    refine ⟨requests, hdeps, fun request hr => ?_⟩
    obtain ⟨other, hother, hres⟩ := hall request hr
    rw [← hids] at hother
    obtain ⟨target, ht, rfl⟩ := List.mem_map.1 hother
    exact ⟨target, ht, hres⟩

theorem counter_compiles : ∃ compiled final, counterUnit.compile counterBodies [⟨5⟩]
    (.initial counterUnit.config counterProgram) = .ok compiled final :=
  exists_ok_of_succeeds (by decide +kernel)

theorem counter_least_fixed_point : ∃ compiled final tables,
    counterUnit.compile counterBodies [⟨5⟩] (.initial counterUnit.config counterProgram) =
      .ok compiled final ∧ (compiled.nodes.map (·.id)).Nodup ∧
    ∀ id, id ∈ compiled.nodes.map (·.id) ↔
      Reaches counterUnit counterBodies tables [⟨5⟩] final id := by
  obtain ⟨compiled, final, h⟩ := counter_compiles
  obtain ⟨hnodup, tables, _, -, -, -, -, hreaches⟩ := compile_least_fixed_point h
  exact ⟨compiled, final, tables, h, hnodup, hreaches⟩

end NativeImage.CompilationUnit

import Mathlib.Data.List.Dedup
import Mathlib.Data.List.Flatten
import Mathlib.Data.List.Nodup
import Kar.Rpc.StrategySpec

/-!
# The reported topology

The component `sidecars` of the system information of `core/internal/runtime/routes-system.go`.

A node announces its service and then its actor types in one list (`Main` of `runtime-main.go`).
`updateRoutes` of `core/pkg/rpc/strategy.go` collects the lists of all nodes in a map from services to
nodes, and `getTopology` of `core/pkg/rpc/query.go` turns the map around again, in the order in which the
map is visited.  So a node has its names back, but not in the order of the list (`topology_perm`), and
the report takes the first of them for the service.
-/

namespace Kar.Rpc

open Kar.Lib

/-! ## The functions -/

/-- What the group knows of a node: the names and the port that it announces, its member id, and the
partition of an earlier generation. -/
structure Announcement where
  node : String
  service : String
  actorTypes : List String
  port : Nat
  member : String
  partition : Nat
  deriving DecidableEq, Repr

namespace Announcement

/-- `myServices` of `Main`. -/
def services (a : Announcement) : List String := a.service :: a.actorTypes

/-- The metadata of the member. -/
def info (a : Announcement) : Info := ⟨a.node, a.services, a.partition⟩

end Announcement

/-- The members of a group. -/
def members (group : List Announcement) : List (String × Info) := group.map fun a => (a.member, a.info)

/-- A node is appended for each service in turn. -/
def appendService (node2services : String → List String) (service : String) (nodes : List String) :
    String → List String :=
  nodes.foldl (fun t node => Function.update t node (t node ++ [service])) node2services

/-- `getTopology`, with the map visited in the given order. -/
def getTopology (service2nodes : String → List String) (order : List String) : String → List String :=
  order.foldl (fun t service => appendService t service (service2nodes service)) fun _ => []

/-- An order in which the map is visited: every service once. -/
structure Visits (service2nodes : String → List String) (order : List String) : Prop where
  nodup : order.Nodup
  mem_iff : ∀ service, service ∈ order ↔ service2nodes service ≠ []

/-- `node2port` of `updateRoutes`. -/
def node2port (group : List Announcement) : String → Nat :=
  group.foldl (fun t a => Function.update t a.node a.port) fun _ => 0

end Kar.Rpc

namespace Kar.Runtime

open Kar.Rpc

structure SidecarData where
  port : Nat
  actors : List String
  services : List String
  deriving DecidableEq, Repr

/-- `karTopology` of `routeImplGetInformation`: a node without services is not in the topology. -/
def karTopology (topology : String → List String) (ports : String → Nat) (node : String) :
    Option SidecarData :=
  match topology node with
  | [] => none
  | service :: actors => some ⟨ports node, actors, [service]⟩

end Kar.Runtime

namespace Kar.Rpc

/-! ## The names of a node -/

theorem appendService_apply :
    appendService t service nodes node = t node ++ List.replicate (nodes.count node) service := by
  unfold appendService
  induction nodes generalizing t with
  | nil => simp
  | cons n _ ih =>
    rw [List.foldl_cons, ih]
    by_cases hn : n = node
    · subst hn
      rw [Function.update_self, List.count_cons_self, List.append_assoc, List.replicate_succ]
      rfl
    · rw [Function.update_of_ne (Ne.symm hn), List.count_cons_of_ne hn]

theorem getTopology_apply (service2nodes : String → List String) (order : List String) (node : String) :
    getTopology service2nodes order node =
      order.flatMap fun service => List.replicate ((service2nodes service).count node) service := by
  have hfold : ∀ t : String → List String,
      order.foldl (fun t service => appendService t service (service2nodes service)) t node =
        t node ++ order.flatMap fun service =>
          List.replicate ((service2nodes service).count node) service := by
    induction order with
    | nil => simp
    | cons _ _ ih =>
      intro t
      rw [List.foldl_cons, ih, appendService_apply, List.flatMap_cons, List.append_assoc]
  exact hfold _

/-- How often a service is announced is how often the node is in its list. -/
theorem count_addServices (t : String → List String) (v : Info) (service node : String) :
    (Process.addServices t v service).count node =
      (t service).count node + if v.node = node then v.services.count service else 0 := by
  unfold Process.addServices
  induction v.services generalizing t with
  | nil => simp
  | cons r _ ih =>
    rw [List.foldl_cons, ih]
    by_cases hr : r = service
    · subst hr
      rw [Function.update_self, List.count_append, List.count_cons_self]
      by_cases hn : v.node = node
      · rw [hn, List.count_singleton_self, if_pos rfl, if_pos rfl]
        omega
      · rw [List.count_singleton, if_neg (by simpa using hn), if_neg hn, if_neg hn]
    · rw [Function.update_of_ne (Ne.symm hr), List.count_cons_of_ne hr]

section Group

variable {group : List Announcement} (P : Process) (assignment : BalancePlan)

/-- The table that `updateRoutes` builds, from a table `t` on. -/
theorem count_foldl_addServices (hnodup : (group.map Announcement.node).Nodup)
    (t : String → List String) (service : String) (ha : a ∈ group) :
    ((members group).foldl (fun t m => Process.addServices t m.2) t service).count a.node =
      (t service).count a.node + a.services.count service := by
  have hother : ∀ (group : List Announcement) (t : String → List String),
      a.node ∉ group.map Announcement.node → ((members group).foldl (fun t m => Process.addServices
        t m.2) t service).count a.node = (t service).count a.node := by
    intro group
    induction group with
    | nil => exact fun _ _ => rfl
    | cons b _ ih =>
      intro t hb
      rw [List.map_cons, List.mem_cons, not_or] at hb
      rw [members, List.map_cons, List.foldl_cons]
      refine (ih _ hb.2).trans ?_
      rw [count_addServices, if_neg (show ¬ b.info.node = a.node from Ne.symm hb.1), Nat.add_zero]
  induction group generalizing t with
  | nil => exact absurd ha List.not_mem_nil
  | cons b group ih =>
    rw [List.map_cons, List.nodup_cons] at hnodup
    rw [members, List.map_cons, List.foldl_cons]
    cases List.mem_cons.mp ha with
    | inl hab =>
      subst hab
      refine (hother group _ hnodup.1).trans ?_
      rw [count_addServices, if_pos (show a.info.node = a.node from rfl)]
      rfl
    | inr hmem =>
      refine (ih hnodup.2 _ hmem).trans ?_
      have hne : b.info.node ≠ a.node := by
        intro heq
        exact hnodup.1 (List.mem_map.mpr ⟨a, hmem, heq.symm⟩)
      rw [count_addServices, if_neg hne, Nat.add_zero]

/-- The nodes of a service are those that announce it, as often as they do. -/
theorem count_service2nodes (hnodup : (group.map Announcement.node).Nodup) (service : String)
    (ha : a ∈ group) :
    ((P.updateRoutes (members group) assignment).service2nodes service).count a.node =
      a.services.count service := by
  refine (count_foldl_addServices hnodup _ service ha).trans ?_
  rw [List.count_nil, Nat.zero_add]

/-- Every name is repeated as often as `f` says. -/
theorem count_flatMap_replicate {order : List String} (hnodup : order.Nodup) (f : String → Nat)
    (x : String) :
    (order.flatMap fun s => List.replicate (f s) s).count x = if x ∈ order then f x else 0 := by
  induction order with
  | nil => rfl
  | cons s _ ih =>
    rw [List.nodup_cons] at hnodup
    rw [List.flatMap_cons, List.count_append, ih hnodup.2, List.count_replicate]
    by_cases hs : s = x
    · subst hs
      rw [if_pos (beq_self_eq_true s), if_neg hnodup.1, if_pos List.mem_cons_self, Nat.add_zero]
    · rw [if_neg (by simpa using hs), Nat.zero_add]
      simp [Ne.symm hs]

/-- A node has its names back in some order. -/
theorem topology_perm (hnodup : (group.map Announcement.node).Nodup)
    (horder : Visits (P.updateRoutes (members group) assignment).service2nodes order)
    {a : Announcement} (ha : a ∈ group) :
    (getTopology (P.updateRoutes (members group) assignment).service2nodes order a.node).Perm
      a.services := by
  rw [List.perm_iff_count]
  intro x
  rw [getTopology_apply, count_flatMap_replicate horder.nodup]
  split
  · exact count_service2nodes P assignment hnodup x ha
  · rename_i hx
    rw [horder.mem_iff, not_not] at hx
    rw [← count_service2nodes P assignment hnodup x ha, hx, List.count_nil]

/-- The services of the map are those that a node announces. -/
theorem service2nodes_ne_nil_iff :
    (P.updateRoutes (members group) assignment).service2nodes service ≠ [] ↔
      ∃ a ∈ group, service ∈ a.services := by
  have hfold : ∀ t : String → List String,
      (members group).foldl (fun t m => Process.addServices t m.2) t service ≠ [] ↔
        t service ≠ [] ∨ ∃ a ∈ group, service ∈ a.services := by
    induction group with
    | nil => exact fun t => by simp [members]
    | cons b _ ih =>
      intro t
      rw [members, List.map_cons, List.foldl_cons]
      refine (ih _).trans ?_
      have hb : Process.addServices t b.info service ≠ [] ↔ t service ≠ [] ∨ service ∈ b.services := by
        simp only [ne_eq, List.eq_nil_iff_forall_not_mem, not_forall, not_not,
          Process.mem_addServices, exists_or, exists_and_left, exists_eq, and_true]
        rfl
      rw [hb, List.exists_mem_cons_iff, or_assoc]
  refine (hfold _).trans ?_
  simp

end Group

end Kar.Rpc

namespace Kar.Runtime

open Kar.Rpc

/-- The report of a node is its announcement. -/
def Listed (topology : String → List String) (ports : String → Nat) (a : Announcement) : Prop :=
  ∃ actors, karTopology topology ports a.node = some ⟨ports a.node, actors, [a.service]⟩ ∧
    actors.Perm a.actorTypes

section

variable {group : List Announcement} (P : Process) (assignment : BalancePlan)

/-- A visit that starts with the service `t`. -/
theorem exists_visits (ha : a ∈ group) (ht : t ∈ a.services) :
    ∃ order, Visits (P.updateRoutes (members group) assignment).service2nodes (t :: order) := by
  refine ⟨(group.flatMap Announcement.services).dedup.erase t, ?_, ?_⟩
  · refine List.nodup_cons.mpr ⟨?_, (List.nodup_dedup _).erase t⟩
    exact (List.nodup_dedup _).not_mem_erase
  intro service
  rw [service2nodes_ne_nil_iff, List.mem_cons, (List.nodup_dedup _).mem_erase_iff, List.mem_dedup,
    List.mem_flatMap]
  constructor
  · intro h
    cases h with
    | inl heq => exact ⟨a, ha, heq ▸ ht⟩
    | inr h => exact h.2
  · intro h
    by_cases heq : service = t
    · exact .inl heq
    · exact .inr ⟨heq, h⟩

/-- The report is right in every order of the map exactly if the first name of every node is the only
one that it announces. -/
theorem sidecars_listed_iff (hnodup : (group.map Announcement.node).Nodup) :
    (∀ order, Visits (P.updateRoutes (members group) assignment).service2nodes order →
      ∀ a ∈ group, Listed
        (getTopology (P.updateRoutes (members group) assignment).service2nodes order)
        (node2port group) a) ↔
      ∀ a ∈ group, ∀ t ∈ a.actorTypes, t = a.service := by
  constructor
  · intro h a ha t ht
    have htmem : t ∈ a.services := List.mem_cons_of_mem _ ht
    obtain ⟨order, horder⟩ := exists_visits P assignment ha htmem
    obtain ⟨actors, hreport, -⟩ := h _ horder a ha
    -- `t` is visited first, so it is the first name that the node has back.
    have hcount : 0 < ((P.updateRoutes (members group) assignment).service2nodes t).count a.node := by
      rw [count_service2nodes P assignment hnodup t ha]
      exact List.count_pos_iff.mpr htmem
    obtain ⟨k, hk⟩ := Nat.exists_eq_add_of_lt hcount
    rw [karTopology, getTopology_apply, List.flatMap_cons, hk, Nat.zero_add, List.replicate_succ,
      List.cons_append] at hreport
    simp only [Option.some.injEq, SidecarData.mk.injEq, List.cons.injEq] at hreport
    exact hreport.2.2.1
  · intro h order horder a ha
    have hperm := topology_perm P assignment hnodup horder ha
    cases htop : getTopology (P.updateRoutes (members group) assignment).service2nodes order a.node with
    | nil =>
      rw [htop] at hperm
      exact absurd hperm.symm.eq_nil (List.cons_ne_nil _ _)
    | cons s actors =>
      rw [htop] at hperm
      have hs : s = a.service := by
        cases List.mem_cons.mp (hperm.subset List.mem_cons_self) with
        | inl hs => exact hs
        | inr hs => exact h a ha s hs
      subst hs
      refine ⟨actors, ?_, (List.perm_cons _).mp hperm⟩
      rw [karTopology, htop]

end

/-- A service without actor types. -/
private def frontNode : Announcement := ⟨"n", "front", [], 1, "m", 1⟩

/-- Its table, in a new process. -/
private def frontTable : String → List String :=
  ((Process.dial "n" ["front"]).updateRoutes (members [frontNode]) fun _ => [1]).service2nodes

private theorem visits_frontTable : Visits frontTable ["front"] where
  nodup := by decide
  mem_iff := by
    intro service
    rw [frontTable, service2nodes_ne_nil_iff]
    simp [frontNode, Announcement.services]

theorem front_listed : Listed (getTopology frontTable ["front"]) (node2port [frontNode]) frontNode :=
  (sidecars_listed_iff (Process.dial "n" ["front"]) (fun _ => [1]) (by decide)).mpr (by decide) ["front"]
    visits_frontTable frontNode List.mem_cons_self

/-- The same service with actors of type `Cart`. -/
private def cartNode : Announcement := ⟨"n", "front", ["Cart"], 1, "m", 1⟩

private def cartTable : String → List String :=
  ((Process.dial "n" ["front", "Cart"]).updateRoutes (members [cartNode]) fun _ => [1]).service2nodes

/-- A visit that comes to `Cart` first. -/
theorem cart_listed_as_service : Visits cartTable ["Cart", "front"] ∧
    karTopology (getTopology cartTable ["Cart", "front"]) (node2port [cartNode]) "n" =
      some ⟨1, ["front"], ["Cart"]⟩ := by
  refine ⟨⟨by decide, ?_⟩, by decide⟩
  intro service
  rw [cartTable, service2nodes_ne_nil_iff]
  simp [cartNode, Announcement.services, or_comm]

end Kar.Runtime

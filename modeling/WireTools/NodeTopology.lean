import WireTools.BindConfig
import WireTools.NodeNames
import WireTools.OrderedMap

/-! # Who dials whom

The plan of a cluster with the binding of every node, and the nodes that a flow adds later.

* `descriptors` are the planned nodes, `peersFor` the nodes that one of them dials: a mesh of the
  bios, producer and API nodes, and one uplink for the operator nodes;
* `createAdHoc` is a node of a flow, on a port pair that `claimAdHocPorts` hands out; it dials
  every planned producer node;
* `Sound`: names, hosting, mesh, uplinks, and no node dialed by more than `peerCapacity`;
* `length_dialers`: how many dial a node, and from it `node_plan`. -/

namespace WireTools
namespace NodeTopology

open NodeConfig

/-! ### The plan -/

/-- The counts of a resolved config, and its binding. -/
structure Cluster where
  nodeCount : ℕ
  producerCount : ℕ
  batchOperatorCount : ℕ
  underwriterCount : ℕ
  apiCount : ℕ
  bind : BindConfig

structure NodeDescriptor where
  role : NodeRole
  index : Int
  name : Text
  ports : BindConfigNodeopPorts
  producers : List Text
  batchOperatorLabel : Option Text
  underwriterLabel : Option Text
deriving DecidableEq

/-- A node with the nodes it dials. -/
structure Node where
  descriptor : NodeDescriptor
  peers : List NodeDescriptor
deriving DecidableEq

def isOperatorRole (role : NodeRole) : Bool :=
  role = .batch_operator ∨ role = .underwriter

def Localhost : String := "127.0.0.1"

def toDialAddress (address : String) : String :=
  if address = "0.0.0.0" ∨ address = "::" ∨ address.length = 0 then Localhost else address

def advertiseAddressFor (cluster : Cluster) (ports : BindConfigNodeopPorts) : String :=
  ports.advertiseAddress.getD (toDialAddress cluster.bind.nodeop.address)

def peerEndpointFor (cluster : Cluster) (ports : BindConfigNodeopPorts) : String :=
  advertiseAddressFor cluster ports ++ ":" ++ toString ports.p2p

/-- The p2p endpoints that a node is started with. -/
def Node.peerEndpoints (cluster : Cluster) (node : Node) : List String :=
  node.peers.map fun peer => peerEndpointFor cluster peer.ports

/-- The planned nodes of one role, on the indexes from `start` on. -/
def roleDescriptors (role : NodeRole) (start : ℕ) (pairs : List BindConfigNodeopPorts)
    (producers : ℕ → List Text) (batchOperatorLabel underwriterLabel : ℕ → Option Text) :
    List NodeDescriptor :=
  pairs.mapIdx fun k ports => ⟨role, (start + k : ℕ), nodeName (start + k), ports, producers k,
    batchOperatorLabel k, underwriterLabel k⟩

/-- The producers that node `k` of `nodes` hosts, of `count` producers. -/
def hosted (count nodes k : ℕ) : List Text :=
  ((List.range count).filter fun i => 0 < nodes && i % nodes == k).map producerName

namespace Cluster

variable (cluster : Cluster)

def biosDescriptor : NodeDescriptor :=
  ⟨.bios, BiosIndex, BiosName, cluster.bind.nodeop.ports.bios, [BiosProducer], none, none⟩

def producerDescriptors : List NodeDescriptor :=
  let pairs := cluster.bind.nodeop.ports.producers
  roleDescriptors .producer 0 pairs (hosted cluster.producerCount pairs.length)
    (fun _ => none) fun _ => none

def batchDescriptors : List NodeDescriptor :=
  let ports := cluster.bind.nodeop.ports
  roleDescriptors .batch_operator ports.producers.length ports.batch (fun _ => [])
    (fun k => some (Constants.batchOperatorLabel k)) fun _ => none

def underwriterDescriptors : List NodeDescriptor :=
  let ports := cluster.bind.nodeop.ports
  roleDescriptors .underwriter (ports.producers.length + ports.batch.length) ports.underwriters
    (fun _ => []) (fun _ => none) fun k => some (Constants.underwriterLabel k)

def apiDescriptors : List NodeDescriptor :=
  let ports := cluster.bind.nodeop.ports
  roleDescriptors .api
    (ports.producers.length + ports.batch.length + ports.underwriters.length) ports.api
    (fun _ => []) (fun _ => none) fun _ => none

/-- Every planned node, bios first. -/
def descriptors : List NodeDescriptor :=
  cluster.biosDescriptor :: (cluster.producerDescriptors ++ cluster.batchDescriptors ++
    cluster.underwriterDescriptors ++ cluster.apiDescriptors)

def meshDescriptors : List NodeDescriptor :=
  cluster.descriptors.filter fun node => !isOperatorRole node.role

/-- Where the operator nodes attach: the first producer node, else the bios node. -/
def operatorUplink : Option NodeDescriptor :=
  (cluster.descriptors.find? fun node => node.role = .producer).or cluster.meshDescriptors[0]?

/-- How many cluster peers one node must tolerate. -/
def peerCapacity : ℕ :=
  let BiosNodeCount := 1
  let AdHocDaemonPeerHeadroom := 3
  cluster.nodeCount + cluster.batchOperatorCount + cluster.underwriterCount + cluster.apiCount +
    BiosNodeCount + AdHocDaemonPeerHeadroom

end Cluster

/-- The nodes that one node dials. -/
def peersFor (node : NodeDescriptor) (meshDescriptors : List NodeDescriptor)
    (operatorUplink : Option NodeDescriptor) : List NodeDescriptor :=
  if isOperatorRole node.role then operatorUplink.toList
  else meshDescriptors.filter fun other => other.name ≠ node.name

def plan (cluster : Cluster) : List Node :=
  cluster.descriptors.map fun d =>
    ⟨d, peersFor d cluster.meshDescriptors cluster.operatorUplink⟩

/-! ### Nodes of a flow -/

inductive OperatorType where
  | producer
  | batch
  | underwriter
  | other (name : Text)
deriving DecidableEq

structure OperatorAccount where
  label : Text
  account : Option Text
  type : OperatorType
deriving DecidableEq

def AdHocIndex : Int := -1

def adHocNodeName (label : Text) : Text :=
  NodeNamePrefix ++ label

/-- The node of a flow's operator.  Its peers are the planned producer nodes. -/
def createAdHoc (cluster : Cluster) (operator : OperatorAccount) (ports : BindConfigNodeopPorts) :
    Except Text Node :=
  let shared (role : NodeRole) (producers : List Text) (batchOperatorLabel underwriterLabel) :
      Node := ⟨⟨role, AdHocIndex, adHocNodeName operator.label, ports, producers,
        batchOperatorLabel, underwriterLabel⟩, cluster.producerDescriptors⟩
  match operator.type with
  | .producer =>
      if operator.account.isNone then
        .error (text "NodeConfig.createAdHoc: producer " ++ operator.label ++
          text " has no on-chain account to produce for")
      else .ok (shared .producer [operator.label] none none)
  | .batch => .ok (shared .batch_operator [] (some operator.label) none)
  | .underwriter => .ok (shared .underwriter [] none (some operator.label))
  | .other name =>
      .error (text "NodeConfig.createAdHoc: " ++ operator.label ++ text " is a " ++ name ++
        text ", which no node role realizes")

/-- The pair reserved for a label: the one it has, else the next. -/
def claimAdHocPorts (pool : List BindConfigNodeopPorts) (claims : OrderedMap Text ℕ)
    (label : Text) : Except Text (OrderedMap Text ℕ × Option BindConfigNodeopPorts) :=
  match claims.get label with
  | some index => .ok (claims, pool[index]?)
  | none =>
      if claims.length < pool.length then
        .ok (claims.set label claims.length, pool[claims.length]?)
      else
        .error (text "ad-hoc port pool exhausted: " ++ natText pool.length ++
          text " pair(s) reserved but \"" ++ label ++ text "\" is the " ++
          natText (claims.length + 1) ++ (if claims.length = 0 then text "st" else text "th") ++
          text " node to ask — raise adHocCount for this cluster so the pairs are claimed and " ++
          text "registered with every planned node")

/-- The nodes of a flow's operators, one after the other. -/
def provision (cluster : Cluster) (claims : OrderedMap Text ℕ) :
    List OperatorAccount → Except Text (List Node)
  | [] => .ok []
  | operator :: operators =>
      match claimAdHocPorts cluster.bind.nodeop.ports.adHoc claims operator.label with
      | .error message => .error message
      -- every claimed index is one of the pool
      | .ok (_, none) => .error []
      | .ok (claims, some ports) =>
          match createAdHoc cluster operator ports with
          | .error message => .error message
          | .ok node =>
              match provision cluster claims operators with
              | .error message => .error message
              | .ok nodes => .ok (node :: nodes)

/-! ### Names and roles -/

theorem map_roleDescriptors {α : Type} (g : NodeDescriptor → α) (h : ℕ → α) {role : NodeRole}
    {start : ℕ} {pairs : List BindConfigNodeopPorts} {producers : ℕ → List Text}
    {batchOperatorLabel underwriterLabel : ℕ → Option Text}
    (hg : ∀ k ports, g ⟨role, (start + k : ℕ), nodeName (start + k), ports, producers k,
      batchOperatorLabel k, underwriterLabel k⟩ = h k) :
    (roleDescriptors role start pairs producers batchOperatorLabel underwriterLabel).map g =
      (List.range pairs.length).map h := by
  refine List.ext_getElem? fun k => ?_
  rw [roleDescriptors, List.getElem?_map, List.getElem?_mapIdx, List.getElem?_map]
  by_cases hk : k < pairs.length
  · rw [List.getElem?_eq_getElem hk, List.getElem?_range hk]
    exact congrArg some (hg k _)
  · rw [List.getElem?_eq_none (Nat.not_lt.mp hk), List.getElem?_eq_none (by simpa using hk)]
    rfl

/-- Without the ports the planned nodes are those of `NodeConfig.plan`. -/
theorem map_descriptors (cluster : Cluster) (config : ClusterConfig)
    (hcount : config.producerCount = cluster.producerCount)
    (hproducers : config.producerNodeCount = cluster.bind.nodeop.ports.producers.length)
    (hbatch : config.batchNodeCount = cluster.bind.nodeop.ports.batch.length)
    (hunderwriters : config.underwriterNodeCount = cluster.bind.nodeop.ports.underwriters.length)
    (hapi : config.apiNodeCount = cluster.bind.nodeop.ports.api.length) :
    cluster.descriptors.map (fun d => (⟨d.role, d.index, d.name, d.producers,
      d.batchOperatorLabel, d.underwriterLabel⟩ : NodeConfig)) = NodeConfig.plan config := by
  rw [Cluster.descriptors, List.map_cons, List.map_append, List.map_append, List.map_append,
    NodeConfig.plan, hproducers, hbatch, hunderwriters, hapi]
  refine congrArg₂ _ rfl (congrArg₂ _ (congrArg₂ _ (congrArg₂ _ ?_ ?_) ?_) ?_)
  · refine map_roleDescriptors _ _ fun k ports => ?_
    rw [Nat.zero_add, hostedProducers, hcount, hproducers]
    rfl
  · exact map_roleDescriptors _ _ fun k ports => rfl
  · exact map_roleDescriptors _ _ fun k ports => rfl
  · exact map_roleDescriptors _ _ fun k ports => rfl

theorem role_roleDescriptors {role : NodeRole} {start : ℕ} {pairs : List BindConfigNodeopPorts}
    {producers : ℕ → List Text} {batchOperatorLabel underwriterLabel : ℕ → Option Text}
    {d : NodeDescriptor}
    (h : d ∈ roleDescriptors role start pairs producers batchOperatorLabel underwriterLabel) :
    d.role = role := by
  obtain ⟨k, hk, rfl⟩ := List.mem_mapIdx.mp h
  rfl

theorem length_roleDescriptors {role : NodeRole} {start : ℕ} {pairs : List BindConfigNodeopPorts}
    {producers : ℕ → List Text} {batchOperatorLabel underwriterLabel : ℕ → Option Text} :
    (roleDescriptors role start pairs producers batchOperatorLabel underwriterLabel).length =
      pairs.length :=
  List.length_mapIdx

namespace Cluster

variable (cluster : Cluster)

/-- How many nodes are planned besides the bios node. -/
def planned : ℕ :=
  let ports := cluster.bind.nodeop.ports
  ports.producers.length + ports.batch.length + ports.underwriters.length + ports.api.length

theorem map_name : cluster.descriptors.map (·.name) =
    BiosName :: (List.range cluster.planned).map nodeName := by
  have hrole : ∀ {role : NodeRole} {start : ℕ} {pairs : List BindConfigNodeopPorts}
      {producers : ℕ → List Text} {batchOperatorLabel underwriterLabel : ℕ → Option Text},
      (roleDescriptors role start pairs producers batchOperatorLabel underwriterLabel).map
        (·.name) = (List.range pairs.length).map fun k => nodeName (start + k) :=
    map_roleDescriptors _ _ fun _ _ => rfl
  rw [descriptors, List.map_cons, List.map_append, List.map_append, List.map_append,
    producerDescriptors, batchDescriptors, underwriterDescriptors, apiDescriptors, hrole, hrole,
    hrole, hrole, planned, List.range_add, List.range_add, List.range_add]
  simp only [List.map_append, List.map_map, Nat.zero_add]
  rfl

theorem nodup_name : (cluster.descriptors.map (·.name)).Nodup := by
  rw [map_name]
  refine List.nodup_cons.mpr ⟨fun hmem => ?_, List.nodup_range.map fun _ _ => nodeName_inj⟩
  obtain ⟨k, -, hk⟩ := List.mem_map.mp hmem
  exact nodeName_ne_bios k hk

theorem meshDescriptors_eq : cluster.meshDescriptors =
    cluster.biosDescriptor :: (cluster.producerDescriptors ++ cluster.apiDescriptors) := by
  have hkeep : ∀ {ds : List NodeDescriptor}, (∀ d ∈ ds, isOperatorRole d.role = false) →
      ds.filter (fun d => !isOperatorRole d.role) = ds := by
    refine fun h => List.filter_eq_self.mpr fun d hd => ?_
    rw [h d hd]
    rfl
  have hdrop : ∀ {ds : List NodeDescriptor}, (∀ d ∈ ds, isOperatorRole d.role = true) →
      ds.filter (fun d => !isOperatorRole d.role) = [] := by
    refine fun h => List.filter_eq_nil_iff.mpr fun d hd => ?_
    rw [h d hd]
    exact Bool.false_ne_true
  rw [meshDescriptors, descriptors, List.filter_cons_of_pos rfl, List.filter_append,
    List.filter_append, List.filter_append, hkeep, hdrop, hdrop, hkeep, List.append_nil,
    List.append_nil]
  all_goals exact fun d hd => congrArg isOperatorRole (role_roleDescriptors hd)

/-- The operators' nodes. -/
theorem operators_eq : cluster.descriptors.filter (fun d => isOperatorRole d.role) =
    cluster.batchDescriptors ++ cluster.underwriterDescriptors := by
  have hkeep : ∀ {ds : List NodeDescriptor}, (∀ d ∈ ds, isOperatorRole d.role = true) →
      ds.filter (fun d => isOperatorRole d.role) = ds :=
    fun h => List.filter_eq_self.mpr h
  have hdrop : ∀ {ds : List NodeDescriptor}, (∀ d ∈ ds, isOperatorRole d.role = false) →
      ds.filter (fun d => isOperatorRole d.role) = [] := by
    refine fun h => List.filter_eq_nil_iff.mpr fun d hd => ?_
    rw [h d hd]
    exact Bool.false_ne_true
  have hbios : ¬isOperatorRole cluster.biosDescriptor.role = true := Bool.false_ne_true
  rw [descriptors,
    List.filter_cons_of_neg (p := fun d : NodeDescriptor => isOperatorRole d.role) hbios,
    List.filter_append, List.filter_append, List.filter_append, hdrop, hkeep, hkeep, hdrop,
    List.append_nil, List.nil_append]
  all_goals exact fun d hd => congrArg isOperatorRole (role_roleDescriptors hd)

/-- The first producer node, else the bios node. -/
def uplink : NodeDescriptor :=
  cluster.producerDescriptors.head?.getD cluster.biosDescriptor

theorem operatorUplink_eq : cluster.operatorUplink = some cluster.uplink := by
  have hnone : ∀ ds : List NodeDescriptor, (∀ d ∈ ds, d.role ≠ .producer) →
      ds.find? (fun d => decide (d.role = .producer)) = none := by
    refine fun ds h => List.find?_eq_none.mpr fun d hd => ?_
    rw [decide_eq_true_iff]
    exact h d hd
  have hproducer : cluster.producerDescriptors.find? (fun d => decide (d.role = .producer)) =
      cluster.producerDescriptors.head? := by
    cases hds : cluster.producerDescriptors with
    | nil => rfl
    | cons d ds =>
        have hrole : d.role = .producer :=
          role_roleDescriptors (hds ▸ List.mem_cons_self : d ∈ cluster.producerDescriptors)
        rw [List.find?_cons, List.head?_cons, decide_eq_true hrole]
  have hbatch : ∀ d ∈ cluster.batchDescriptors, d.role ≠ .producer := by
    intro d hd
    rw [show d.role = .batch_operator from role_roleDescriptors hd]
    decide
  have hunderwriter : ∀ d ∈ cluster.underwriterDescriptors, d.role ≠ .producer := by
    intro d hd
    rw [show d.role = .underwriter from role_roleDescriptors hd]
    decide
  have hapi : ∀ d ∈ cluster.apiDescriptors, d.role ≠ .producer := by
    intro d hd
    rw [show d.role = .api from role_roleDescriptors hd]
    decide
  have hbios : ¬decide (cluster.biosDescriptor.role = .producer) = true := Bool.false_ne_true
  rw [operatorUplink, meshDescriptors_eq, descriptors,
    List.find?_cons_of_neg (p := fun d : NodeDescriptor => decide (d.role = .producer)) hbios,
    List.find?_append, List.find?_append, List.find?_append, hproducer, hnone _ hbatch,
    hnone _ hunderwriter, hnone _ hapi, Option.or_none, Option.or_none, Option.or_none, uplink]
  cases cluster.producerDescriptors.head? <;> rfl

theorem uplink_mem : cluster.uplink ∈ cluster.meshDescriptors := by
  rw [meshDescriptors_eq, uplink]
  cases hhead : cluster.producerDescriptors.head? with
  | none => exact List.mem_cons_self
  | some d =>
      exact List.mem_cons_of_mem _ (List.mem_append_left _ (List.mem_of_head? hhead))

end Cluster

/-! ### Who dials a node -/

/-- The other nodes that dial a planned node. -/
def dialers (nodes : List Node) (b : NodeDescriptor) : List Node :=
  nodes.filter fun a => a.descriptor ≠ b ∧ b ∈ a.peers

section Counting

variable (cluster : Cluster)

theorem mem_mesh {d : NodeDescriptor} : d ∈ cluster.meshDescriptors ↔
    d ∈ cluster.descriptors ∧ isOperatorRole d.role = false := by
  rw [Cluster.meshDescriptors, List.mem_filter, Bool.not_eq_true']

/-- All the mesh but the node itself dials a mesh node. -/
theorem countP_mesh {b : NodeDescriptor} (hb : b ∈ cluster.meshDescriptors) :
    cluster.meshDescriptors.countP (fun d => decide (b.name ≠ d.name)) + 1 =
      cluster.meshDescriptors.length := by
  have hself : cluster.meshDescriptors.countP (fun d => decide ¬(b.name ≠ d.name)) = 1 := by
    have hnodup : (cluster.meshDescriptors.map (·.name)).Nodup :=
      cluster.nodup_name.sublist (List.filter_sublist.map _)
    have hcount := List.count_eq_one_of_mem hnodup (List.mem_map.mpr ⟨b, hb, rfl⟩)
    rw [List.count, List.countP_map] at hcount
    rw [← hcount]
    refine List.countP_congr fun d _ => ?_
    rw [decide_eq_true_iff, not_not, Function.comp_apply, beq_iff_eq, eq_comm]
  have hall := List.length_eq_countP_add_countP (fun d : NodeDescriptor => decide (b.name ≠ d.name))
    (l := cluster.meshDescriptors)
  rw [hall]
  refine congrArg _ (hself.symm.trans (List.countP_congr fun d _ => ?_))
  simp

/-- How many planned nodes dial a planned node. -/
theorem length_dialers_plan {b : NodeDescriptor} (hb : b ∈ cluster.descriptors) :
    (dialers (plan cluster) b).length =
      (if isOperatorRole b.role then 0 else cluster.meshDescriptors.length - 1) +
        if b = cluster.uplink then
          (cluster.descriptors.filter fun d => isOperatorRole d.role).length
        else 0 := by
  have hplan : (dialers (plan cluster) b).length = cluster.descriptors.countP fun d =>
      decide (d ≠ b ∧ b ∈ peersFor d cluster.meshDescriptors cluster.operatorUplink) := by
    rw [dialers, plan, List.filter_map, List.length_map, ← List.countP_eq_length_filter]
    rfl
  rw [hplan, List.countP_eq_countP_filter_add _ _ fun d : NodeDescriptor => !isOperatorRole d.role]
  refine congrArg₂ _ ?_ ?_
  · by_cases hop : isOperatorRole b.role = true
    · rw [if_pos hop]
      refine List.countP_eq_zero.mpr fun d hd hdials => ?_
      have hd : isOperatorRole d.role = false := (mem_mesh cluster |>.mp hd).2
      have hmem := (of_decide_eq_true hdials).2
      rw [peersFor, if_neg (by rw [hd]; exact Bool.false_ne_true), List.mem_filter] at hmem
      rw [(mem_mesh cluster |>.mp hmem.1).2] at hop
      cases hop
    · have hmesh : b ∈ cluster.meshDescriptors :=
        (mem_mesh cluster).mpr ⟨hb, Bool.eq_false_iff.mpr hop⟩
      rw [if_neg hop, ← countP_mesh cluster hmesh, Nat.add_sub_cancel]
      refine List.countP_congr fun d hd => ?_
      have hd : isOperatorRole d.role = false := (mem_mesh cluster |>.mp hd).2
      rw [decide_eq_true_iff, decide_eq_true_iff, peersFor,
        if_neg (by rw [hd]; exact Bool.false_ne_true), List.mem_filter, decide_eq_true_iff,
        and_iff_right hmesh]
      exact and_iff_right_of_imp fun hname heq => hname (congrArg (·.name) heq.symm)
  · simp only [Bool.not_not]
    have hop : ∀ d ∈ cluster.descriptors.filter (fun d => isOperatorRole d.role),
        (d ≠ b ∧ b ∈ peersFor d cluster.meshDescriptors cluster.operatorUplink ↔
          b = cluster.uplink) := by
      intro d hd
      have hd := (List.mem_filter.mp hd).2
      rw [peersFor, if_pos hd, cluster.operatorUplink_eq, Option.toList_some, List.mem_singleton]
      refine and_iff_right_of_imp fun heq hself => ?_
      rw [hself, heq, (mem_mesh cluster |>.mp cluster.uplink_mem).2] at hd
      cases hd
    split
    · next heq =>
        refine List.countP_eq_length.mpr fun d hd => ?_
        exact decide_eq_true ((hop d hd).mpr heq)
    · next hne =>
        refine List.countP_eq_zero.mpr fun d hd hdials => ?_
        exact hne ((hop d hd).mp (of_decide_eq_true hdials))

end Counting

/-! ### Nodes of a flow dial the producers -/

theorem createAdHoc_peers {cluster : Cluster} {operator : OperatorAccount}
    {ports : BindConfigNodeopPorts} {node : Node}
    (h : createAdHoc cluster operator ports = .ok node) :
    node.peers = cluster.producerDescriptors ∧ node.descriptor.index = AdHocIndex := by
  unfold createAdHoc at h
  dsimp only at h
  split at h
  · split at h
    · cases h
    · cases h
      exact ⟨rfl, rfl⟩
  · cases h
    exact ⟨rfl, rfl⟩
  · cases h
    exact ⟨rfl, rfl⟩
  · cases h

theorem provision_peers {cluster : Cluster} {operators : List OperatorAccount}
    {claims : OrderedMap Text ℕ} {adHoc : List Node}
    (h : provision cluster claims operators = .ok adHoc) :
    ∀ node ∈ adHoc, node.peers = cluster.producerDescriptors ∧
      node.descriptor.index = AdHocIndex := by
  induction operators generalizing claims adHoc with
  | nil =>
      cases h
      exact nofun
  | cons operator operators ih =>
      unfold provision at h
      split at h
      · cases h
      · cases h
      · split at h
        · cases h
        · next node hnode =>
            split at h
            · cases h
            · next nodes hnodes =>
                cases h
                intro other hother
                rcases List.mem_cons.mp hother with rfl | hrest
                · exact createAdHoc_peers hnode
                · exact ih hnodes other hrest

namespace Cluster

variable {cluster : Cluster}

theorem mem_descriptors {d : NodeDescriptor} : d ∈ cluster.descriptors ↔
    d = cluster.biosDescriptor ∨ d ∈ cluster.producerDescriptors ∨
      d ∈ cluster.batchDescriptors ∨ d ∈ cluster.underwriterDescriptors ∨
        d ∈ cluster.apiDescriptors := by
  simp only [descriptors, List.mem_cons, List.mem_append, or_assoc]

theorem mem_producerDescriptors {d : NodeDescriptor} (hd : d ∈ cluster.descriptors)
    (hrole : d.role = .producer) : d ∈ cluster.producerDescriptors := by
  rcases mem_descriptors.mp hd with rfl | hd | hd | hd | hd
  · cases hrole
  · exact hd
  · cases hrole.symm.trans (role_roleDescriptors hd)
  · cases hrole.symm.trans (role_roleDescriptors hd)
  · cases hrole.symm.trans (role_roleDescriptors hd)

theorem index_ne_adHoc {d : NodeDescriptor} (hd : d ∈ cluster.descriptors) :
    d.index ≠ AdHocIndex := by
  have hrole : ∀ {role : NodeRole} {start : ℕ} {pairs : List BindConfigNodeopPorts}
      {producers : ℕ → List Text} {batchOperatorLabel underwriterLabel : ℕ → Option Text},
      d ∈ roleDescriptors role start pairs producers batchOperatorLabel underwriterLabel →
        d.index ≠ AdHocIndex := by
    intro role start pairs producers batchOperatorLabel underwriterLabel hd
    obtain ⟨k, hk, rfl⟩ := List.mem_mapIdx.mp hd
    unfold AdHocIndex
    dsimp only
    omega
  rcases mem_descriptors.mp hd with rfl | hd | hd | hd | hd
  · exact (by decide : BiosIndex ≠ AdHocIndex)
  · exact hrole hd
  · exact hrole hd
  · exact hrole hd
  · exact hrole hd

theorem length_producerDescriptors :
    cluster.producerDescriptors.length = cluster.bind.nodeop.ports.producers.length :=
  length_roleDescriptors

theorem length_meshDescriptors : cluster.meshDescriptors.length =
    cluster.bind.nodeop.ports.producers.length + cluster.bind.nodeop.ports.api.length + 1 := by
  rw [meshDescriptors_eq, List.length_cons, List.length_append, length_producerDescriptors,
    apiDescriptors, length_roleDescriptors]

theorem length_operators : (cluster.descriptors.filter fun d => isOperatorRole d.role).length =
    cluster.bind.nodeop.ports.batch.length + cluster.bind.nodeop.ports.underwriters.length := by
  rw [operators_eq, List.length_append, batchDescriptors, underwriterDescriptors,
    length_roleDescriptors, length_roleDescriptors]

end Cluster

theorem length_dialers_adHoc {cluster : Cluster} {adHoc : List Node}
    (h : ∀ node ∈ adHoc, node.peers = cluster.producerDescriptors ∧
      node.descriptor.index = AdHocIndex) {b : NodeDescriptor} (hb : b ∈ cluster.descriptors) :
    (dialers adHoc b).length = if b ∈ cluster.producerDescriptors then adHoc.length else 0 := by
  have hdials : ∀ node ∈ adHoc,
      (node.descriptor ≠ b ∧ b ∈ node.peers ↔ b ∈ cluster.producerDescriptors) := by
    intro node hnode
    obtain ⟨hpeers, hindex⟩ := h node hnode
    rw [hpeers]
    refine and_iff_right fun heq => Cluster.index_ne_adHoc hb ?_
    rw [← heq, hindex]
  split
  · next hmem =>
      refine congrArg _ (List.filter_eq_self.mpr fun node hnode => ?_)
      exact decide_eq_true ((hdials node hnode).mpr hmem)
  · next hmem =>
      refine List.length_eq_zero_iff.mpr (List.filter_eq_nil_iff.mpr fun node hnode hd => ?_)
      exact hmem ((hdials node hnode).mp (of_decide_eq_true hd))

/-- How many nodes, planned or of a flow, dial a planned node. -/
theorem length_dialers {cluster : Cluster} {adHoc : List Node}
    (h : ∀ node ∈ adHoc, node.peers = cluster.producerDescriptors ∧
      node.descriptor.index = AdHocIndex) {b : NodeDescriptor} (hb : b ∈ cluster.descriptors) :
    (dialers (plan cluster ++ adHoc) b).length =
      (if isOperatorRole b.role then 0
        else cluster.bind.nodeop.ports.producers.length + cluster.bind.nodeop.ports.api.length) +
      (if b = cluster.uplink then
        cluster.bind.nodeop.ports.batch.length + cluster.bind.nodeop.ports.underwriters.length
        else 0) +
      if b ∈ cluster.producerDescriptors then adHoc.length else 0 := by
  rw [dialers, List.filter_append, List.length_append, ← dialers, ← dialers,
    length_dialers_plan cluster hb, length_dialers_adHoc h hb, Cluster.length_meshDescriptors,
    Cluster.length_operators]
  rfl

/-- With producer nodes the uplink is one of them. -/
theorem Cluster.uplink_mem_producers (cluster : Cluster)
    (hne : cluster.bind.nodeop.ports.producers ≠ []) :
    cluster.uplink ∈ cluster.producerDescriptors := by
  rw [uplink]
  cases hhead : cluster.producerDescriptors.head? with
  | none =>
      rw [List.head?_eq_none_iff, ← List.length_eq_zero_iff, length_producerDescriptors,
        List.length_eq_zero_iff] at hhead
      exact absurd hhead hne
  | some d => exact List.mem_of_head? hhead

/-! ### The plan is sound -/

/-- The binding holds one pair for every counted node. -/
structure Cluster.Counted (cluster : Cluster) : Prop where
  producers : cluster.bind.nodeop.ports.producers.length = cluster.nodeCount
  batch : cluster.bind.nodeop.ports.batch.length = cluster.batchOperatorCount
  underwriters : cluster.bind.nodeop.ports.underwriters.length = cluster.underwriterCount
  api : cluster.bind.nodeop.ports.api.length = cluster.apiCount

/-- Names, hosting, mesh, uplinks and capacity of a plan with the nodes of a flow. -/
structure Sound (cluster : Cluster) (adHoc : List Node) : Prop where
  names : ((plan cluster).map (·.descriptor.name)).Nodup
  hosted : cluster.bind.nodeop.ports.producers ≠ [] → ∀ i < cluster.producerCount,
    ∃ node ∈ plan cluster, (node.descriptor.role = .producer ∧
      producerName i ∈ node.descriptor.producers) ∧
      ∀ other ∈ plan cluster, other.descriptor.role = .producer →
        producerName i ∈ other.descriptor.producers → other = node
  distinct : ((List.range cluster.producerCount).map producerName).Nodup
  valid : ∀ i < cluster.producerCount, validAccountName (producerName i)
  mesh : ∀ a ∈ plan cluster, ∀ b ∈ plan cluster, isOperatorRole a.descriptor.role = false →
    isOperatorRole b.descriptor.role = false →
      (b.descriptor ∈ a.peers ↔ a.descriptor ∈ b.peers)
  uplink : ∀ a ∈ plan cluster, isOperatorRole a.descriptor.role = true →
    ∃ b ∈ plan cluster, a.peers = [b.descriptor] ∧ isOperatorRole b.descriptor.role = false
  capacity : ∀ b ∈ plan cluster,
    (dialers (plan cluster ++ adHoc) b.descriptor).length ≤ cluster.peerCapacity

/-- The name of a producer is hosted where its index falls in turn. -/
theorem mem_hosted {count nodes k i : ℕ} (hnames : ((List.range count).map producerName).Nodup)
    (hi : i < count) : producerName i ∈ hosted count nodes k ↔ 0 < nodes ∧ i % nodes = k := by
  rw [NodeTopology.hosted, List.mem_map]
  constructor
  · rintro ⟨j, hj, hname⟩
    obtain ⟨hj, hturn⟩ := List.mem_filter.mp hj
    obtain rfl := List.inj_on_of_nodup_map hnames hj (List.mem_range.mpr hi) hname
    simpa using hturn
  · rintro ⟨hpos, hturn⟩
    refine ⟨i, List.mem_filter.mpr ⟨List.mem_range.mpr hi, ?_⟩, rfl⟩
    simpa [hpos] using hturn

theorem mem_plan {cluster : Cluster} {a : Node} : a ∈ plan cluster ↔
    a.descriptor ∈ cluster.descriptors ∧
      a.peers = peersFor a.descriptor cluster.meshDescriptors cluster.operatorUplink := by
  rw [plan, List.mem_map]
  constructor
  · rintro ⟨d, hd, rfl⟩
    exact ⟨hd, rfl⟩
  · rintro ⟨hd, hpeers⟩
    exact ⟨a.descriptor, hd, by rw [← hpeers]⟩

theorem mem_plan_of_mem {cluster : Cluster} {d : NodeDescriptor} (hd : d ∈ cluster.descriptors) :
    ⟨d, peersFor d cluster.meshDescriptors cluster.operatorUplink⟩ ∈ plan cluster :=
  mem_plan.mpr ⟨hd, rfl⟩

theorem hosted_once {cluster : Cluster}
    (hnames : ((List.range cluster.producerCount).map producerName).Nodup)
    (hne : cluster.bind.nodeop.ports.producers ≠ []) {i : ℕ} (hi : i < cluster.producerCount) :
    ∃ node ∈ plan cluster, (node.descriptor.role = .producer ∧
      producerName i ∈ node.descriptor.producers) ∧
      ∀ other ∈ plan cluster, other.descriptor.role = .producer →
        producerName i ∈ other.descriptor.producers → other = node := by
  have hpos := List.length_pos_iff.mpr hne
  have hturn := Nat.mod_lt i hpos
  obtain ⟨d, hget⟩ : ∃ d, cluster.producerDescriptors[
      i % cluster.bind.nodeop.ports.producers.length]? = some d :=
    ⟨_, List.getElem?_eq_getElem (by rwa [Cluster.length_producerDescriptors])⟩
  have hown : ∀ {k : ℕ} {d : NodeDescriptor}, cluster.producerDescriptors[k]? = some d →
      d.role = .producer ∧ (producerName i ∈ d.producers ↔
        i % cluster.bind.nodeop.ports.producers.length = k) := by
    intro k d hd
    rw [Cluster.producerDescriptors, roleDescriptors, List.getElem?_mapIdx,
      Option.map_eq_some_iff] at hd
    obtain ⟨ports, -, rfl⟩ := hd
    exact ⟨rfl, (mem_hosted hnames hi).trans (and_iff_right hpos)⟩
  have hd := Cluster.mem_descriptors.mpr (Or.inr (Or.inl (List.mem_of_getElem? hget)))
  refine ⟨_, mem_plan_of_mem hd, ⟨(hown hget).1, (hown hget).2.mpr rfl⟩, ?_⟩
  intro other hother hrole hproducer
  obtain ⟨hmem, hpeers⟩ := mem_plan.mp hother
  obtain ⟨k, hk⟩ := List.mem_iff_getElem?.mp (Cluster.mem_producerDescriptors hmem hrole)
  obtain rfl := (hown hk).2.mp hproducer
  obtain ⟨descriptor, peers⟩ := other
  obtain rfl : descriptor = d := Option.some.inj (hk.symm.trans hget)
  exact congrArg (Node.mk descriptor) hpeers

/-- The plan is sound just when the producer names do not come round again and, with producer
nodes planned, at most four nodes are added. -/
theorem node_plan {cluster : Cluster} (hcounted : cluster.Counted)
    (hcount : cluster.producerCount ≤ 26 ^ 7) {operators : List OperatorAccount}
    {adHoc : List Node} (hadHoc : provision cluster [] operators = .ok adHoc) :
    Sound cluster adHoc ↔ cluster.producerCount ≤ firstSuffix + 25 ∧
      (cluster.bind.nodeop.ports.producers = [] ∨ adHoc.length ≤ 4) := by
  have hpeers := provision_peers hadHoc
  constructor
  · intro h
    refine ⟨(nodup_producerNames _).mp h.distinct, ?_⟩
    by_contra hmore
    obtain ⟨hne, hmore⟩ := not_or.mp hmore
    have hup := cluster.uplink_mem_producers hne
    have hdescriptor := Cluster.mem_descriptors.mpr (Or.inr (Or.inl hup))
    have hmesh := ((mem_mesh cluster).mp cluster.uplink_mem).2
    have hcapacity := h.capacity _ (mem_plan_of_mem hdescriptor)
    rw [length_dialers hpeers hdescriptor, if_neg (by rw [hmesh]; exact Bool.false_ne_true),
      if_pos rfl, if_pos hup, Cluster.peerCapacity, hcounted.producers, hcounted.batch,
      hcounted.underwriters, hcounted.api] at hcapacity
    omega
  · rintro ⟨hnames, hadHoc⟩
    have hnames := (nodup_producerNames _).mpr hnames
    refine ⟨?_, fun hne i hi => hosted_once hnames hne hi, hnames, ?_, ?_, ?_, ?_⟩
    · rw [plan, List.map_map]
      exact cluster.nodup_name
    · exact fun i hi => validAccountName_producerName (Nat.lt_of_lt_of_le hi hcount)
    · intro a ha b hb hma hmb
      obtain ⟨hda, hpa⟩ := mem_plan.mp ha
      obtain ⟨hdb, hpb⟩ := mem_plan.mp hb
      rw [hpa, hpb, peersFor, peersFor, if_neg (by rw [hma]; exact Bool.false_ne_true),
        if_neg (by rw [hmb]; exact Bool.false_ne_true), List.mem_filter, List.mem_filter,
        and_iff_right ((mem_mesh cluster).mpr ⟨hda, hma⟩),
        and_iff_right ((mem_mesh cluster).mpr ⟨hdb, hmb⟩), decide_eq_true_iff,
        decide_eq_true_iff]
      exact ne_comm
    · intro a ha hop
      obtain ⟨hd, hpa⟩ := mem_plan.mp ha
      obtain ⟨hup, hmesh⟩ := (mem_mesh cluster).mp cluster.uplink_mem
      refine ⟨_, mem_plan_of_mem hup, ?_, hmesh⟩
      rw [hpa, peersFor, if_pos hop, cluster.operatorUplink_eq]
      rfl
    · intro b hb
      obtain ⟨hdb, -⟩ := mem_plan.mp hb
      rw [length_dialers hpeers hdb, Cluster.peerCapacity, hcounted.producers, hcounted.batch,
        hcounted.underwriters, hcounted.api]
      have hfew : (if b.descriptor ∈ cluster.producerDescriptors then adHoc.length else 0) ≤ 4 := by
        split
        · next hmem =>
            refine hadHoc.resolve_left fun hnil => ?_
            have hlength := cluster.length_producerDescriptors
            rw [hnil, List.length_nil, List.length_eq_zero_iff] at hlength
            rw [hlength] at hmem
            cases hmem
        · exact Nat.zero_le _
      split <;> split <;> omega

/-- A cluster of one node of each kind, with `adHoc` pairs reserved. -/
def oneOfEach (producerCount adHoc : ℕ) : Cluster where
  nodeCount := 1
  producerCount := producerCount
  batchOperatorCount := 1
  underwriterCount := 1
  apiCount := 1
  bind := ⟨⟨"127.0.0.1", 8900⟩, ⟨"127.0.0.1", ⟨8788, 9776, none⟩, [⟨8888, 9876, none⟩],
    [⟨8889, 9877, none⟩], [⟨8890, 9878, none⟩], [⟨8891, 9879, none⟩],
    (List.range adHoc).map fun k => ⟨8988 + k, 9976 + k, none⟩⟩, ⟨"127.0.0.1", 8545⟩,
    ⟨"127.0.0.1", ⟨8899, 9900, 8000, ⟨8001, 8030⟩⟩⟩, ⟨"127.0.0.1", 4040⟩⟩

/-- Batch operators with the labels `a`, `b` and so on. -/
def daemons (count : ℕ) : List OperatorAccount :=
  (List.range count).map fun k => ⟨[letter k], none, .batch⟩

theorem counted_oneOfEach (producerCount adHoc : ℕ) : (oneOfEach producerCount adHoc).Counted :=
  ⟨rfl, rfl, rfl, rfl⟩

theorem node_plan_one_of_each :
    ∃ adHoc, provision (oneOfEach 3 2) [] (daemons 2) = .ok adHoc ∧
      Sound (oneOfEach 3 2) adHoc := by
  obtain ⟨adHoc, hadHoc⟩ : ∃ adHoc, provision (oneOfEach 3 2) [] (daemons 2) = .ok adHoc :=
    ⟨_, rfl⟩
  refine ⟨adHoc, hadHoc, (node_plan (counted_oneOfEach 3 2) (by decide) hadHoc).mpr ⟨by decide, ?_⟩⟩
  cases hadHoc
  exact Or.inr (by decide)

/-- Five nodes of a flow dial the producer node above its capacity; and of `26 ^ 7` producer
names two are the same. -/
theorem over_capacity_or_named_twice :
    (∃ adHoc, provision (oneOfEach 1 5) [] (daemons 5) = .ok adHoc ∧ ¬Sound (oneOfEach 1 5) adHoc) ∧
    ¬Sound (oneOfEach (26 ^ 7) 0) [] := by
  constructor
  · refine ⟨_, rfl, fun h => ?_⟩
    have hdescriptor : (oneOfEach 1 5).uplink ∈ (oneOfEach 1 5).descriptors :=
      Cluster.mem_descriptors.mpr (Or.inr (Or.inl List.mem_cons_self))
    have hmem := mem_plan_of_mem hdescriptor
    exact absurd (h.capacity _ hmem) (by decide)
  · exact fun h => absurd ((nodup_producerNames _).mp h.distinct) (by decide)

end NodeTopology
end WireTools

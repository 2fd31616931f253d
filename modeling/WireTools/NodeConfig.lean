import WireTools.SignatureProvider

/-! # Planned nodes

`NodeConfig.plan` lists the nodes of a cluster: the bios node, the producer nodes with the
producers dealt out to them in turn, then the operator nodes and the API nodes.  A planned
producer's keys are published under its node's name when it is the node's only producer, and
under its own label otherwise. -/

namespace WireTools

inductive NodeRole where
  | bios
  | producer
  | batch_operator
  | underwriter
  | api
  deriving DecidableEq

/-- A planned node. -/
structure NodeConfig where
  role : NodeRole
  index : Int
  name : Text
  /-- The labels of the producers it hosts. -/
  producers : List Text
  batchOperatorLabel : Option Text
  underwriterLabel : Option Text

/-- `t` padded at its start with `c` to `width` units. -/
def padStart (width : ℕ) (c : CodeUnit) (t : Text) : Text :=
  List.replicate (width - t.length) c ++ t

/-- The letter of an index below 26. -/
def letter (i : ℕ) : CodeUnit := UInt16.ofNat (97 + i)

namespace Constants

def BOOTSTRAP_NODE_OWNER : Text := text "wireno"

def batchOperatorLabel (index : ℕ) : Text := text "batchop." ++ [letter (index % 26)]

def underwriterLabel (index : ℕ) : Text := text "uwrit." ++ [letter (index % 26)]

end Constants

namespace NodeConfig

def NodeNamePrefix : Text := text "node_"

def BiosIndex : Int := -100

def BiosName : Text := NodeNamePrefix ++ text "bios"

def BiosProducer : Text := text "sysio"

/-- The name of the planned node at `index`. -/
def nodeName (index : ℕ) : Text :=
  NodeNamePrefix ++ padStart 2 48 (natText index)

/-- The letters of a number in base 26. -/
def alphaStrBase (num : ℕ) : Text :=
  if 0 < num / 26 then alphaStrBase (num / 26) ++ [letter (num % 26)] else [letter (num % 26)]

/-- The account name of the producer at `index`. -/
def producerName (index : ℕ) : Text :=
  if 25 < index then text "defpr" ++ padStart 7 97 (alphaStrBase (index - 26 + 1))
  else text "defproducer" ++ [letter index]

/-- The producers that node `k` of `nodes` hosts. -/
def hostedProducers (config : ClusterConfig) (k : ℕ) : List Text :=
  ((List.range config.producerCount).filter fun i =>
    0 < config.producerNodeCount && i % config.producerNodeCount == k).map producerName

/-- Every node of the cluster, bios first. -/
def plan (config : ClusterConfig) : List NodeConfig :=
  let producers := (List.range config.producerNodeCount).map fun k =>
    ⟨.producer, k, nodeName k, hostedProducers config k, none, none⟩
  let batchStart := config.producerNodeCount
  let batch := (List.range config.batchNodeCount).map fun k =>
    ⟨.batch_operator, (batchStart + k : ℕ), nodeName (batchStart + k), [],
      some (Constants.batchOperatorLabel k), none⟩
  let underwriterStart := batchStart + config.batchNodeCount
  let underwriters := (List.range config.underwriterNodeCount).map fun k =>
    ⟨.underwriter, (underwriterStart + k : ℕ), nodeName (underwriterStart + k), [], none,
      some (Constants.underwriterLabel k)⟩
  let apiStart := underwriterStart + config.underwriterNodeCount
  let api := (List.range config.apiNodeCount).map fun k =>
    ⟨.api, (apiStart + k : ℕ), nodeName (apiStart + k), [], none, none⟩
  ⟨.bios, BiosIndex, BiosName, [BiosProducer], none, none⟩ ::
    (producers ++ batch ++ underwriters ++ api)

/-- The planned producer nodes. -/
def producerNodes (config : ClusterConfig) : List NodeConfig :=
  (plan config).filter fun node => node.role = .producer

/-- The label a hosted producer's keys are published under. -/
def producerPublicationLabel (node : NodeConfig) (producer : Text) : Text :=
  if node.producers.length = 1 then node.name else producer

theorem producerNodes_eq (config : ClusterConfig) :
    producerNodes config = (List.range config.producerNodeCount).map fun k =>
      ⟨.producer, k, nodeName k, hostedProducers config k, none, none⟩ := by
  have hkeep : ∀ (n : ℕ) (f : ℕ → NodeConfig), (∀ k, (f k).role = .producer) →
      ((List.range n).map f).filter (fun node => decide (node.role = .producer)) =
        (List.range n).map f := by
    intro n f hf
    rw [List.filter_eq_self]
    intro node hnode
    obtain ⟨k, _, rfl⟩ := List.mem_map.1 hnode
    exact decide_eq_true (hf k)
  have hdrop : ∀ (n : ℕ) (f : ℕ → NodeConfig), (∀ k, (f k).role ≠ .producer) →
      ((List.range n).map f).filter (fun node => decide (node.role = .producer)) = [] := by
    intro n f hf
    rw [List.filter_eq_nil_iff]
    intro node hnode
    obtain ⟨k, _, rfl⟩ := List.mem_map.1 hnode
    simpa using hf k
  unfold producerNodes plan
  rw [List.filter_cons_of_neg (by simp), List.filter_append, List.filter_append,
    List.filter_append, hkeep _ _ (fun _ => rfl), hdrop _ _ (fun _ => by simp),
    hdrop _ _ (fun _ => by simp), hdrop _ _ (fun _ => by simp)]
  simp only [List.append_nil]

end NodeConfig

end WireTools

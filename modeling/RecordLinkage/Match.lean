import RecordLinkage.Form

/-! Match rows. A cluster is stored as directed scored edges between entities, one row for each ordered
pair of entities in each cluster. -/

namespace RecordLinkage

structure Link where
  src : EntityKey
  dst : EntityKey
deriving DecidableEq

namespace Link

instance : Ord Link := ⟨compareLex (compareOn src) (compareOn dst)⟩

instance : Std.TransOrd Link :=
  inferInstanceAs (Std.TransCmp (compareLex (compareOn src) (compareOn dst)))

instance : Std.LawfulEqOrd Link where
  eq_of_compare := by
    intro a b same
    obtain ⟨sources, targets⟩ := compareLex_eq_eq.mp same
    cases a
    cases b
    simp only [compareOn, Std.LawfulEqOrd.compare_eq_iff_eq] at sources targets
    simp [sources, targets]

def touches (link : Link) (entity : EntityKey) : Bool := link.src = entity || link.dst = entity

def pair (link : Link) : EntityPair := .of link.src link.dst

end Link

structure Edge where
  cluster : Id
  link : Link
deriving DecidableEq

namespace Edge

instance : Ord Edge := ⟨compareLex (compareOn cluster) (compareOn link)⟩

instance : Std.TransOrd Edge :=
  inferInstanceAs (Std.TransCmp (compareLex (compareOn cluster) (compareOn link)))

instance : Std.LawfulEqOrd Edge where
  eq_of_compare := by
    intro a b same
    obtain ⟨clusters, links⟩ := compareLex_eq_eq.mp same
    cases a
    cases b
    simp only [compareOn, Std.LawfulEqOrd.compare_eq_iff_eq] at clusters links
    simp [clusters, links]

end Edge

abbrev EdgeSet := Std.ExtTreeSet Edge

structure ScoredEdge where
  edge : Edge
  score : Double
deriving DecidableEq

structure MatchRow where
  score : Double
  updatedAt : Instant
deriving DecidableEq

structure MatchedEdge where
  edge : Edge
  row : MatchRow
deriving DecidableEq

structure ClusterSummary where
  cluster : Id
  averageScore : Double
  edgeCount : Nat
deriving DecidableEq

structure BlockSize where
  entity : EntityKey
  size : Nat
deriving DecidableEq

open Form

instance : Form ScoredEdge where
  toJson row := Json.ofRecord [
    ("linking_id", toJson row.edge.cluster),
    ("src", toJson row.edge.link.src),
    ("dst", toJson row.edge.link.dst),
    ("score", toJson row.score)]
  ofJson? json := do
    match ← json.record? ["linking_id", "src", "dst", "score"] with
    | [cluster, src, dst, score] =>
        return ⟨⟨← required? cluster, ← required? src, ← required? dst⟩, ← required? score⟩
    | _ => none

instance : Form MatchedEdge where
  toJson row := Json.ofRecord [
    ("linking_id", toJson row.edge.cluster),
    ("src", toJson row.edge.link.src),
    ("dst", toJson row.edge.link.dst),
    ("score", toJson row.row.score),
    ("updated_at", toJson row.row.updatedAt)]
  ofJson? json := do
    match ← json.record? ["linking_id", "src", "dst", "score", "updated_at"] with
    | [cluster, src, dst, score, updatedAt] =>
        return ⟨⟨← required? cluster, ← required? src, ← required? dst⟩,
          ⟨← required? score, ← required? updatedAt⟩⟩
    | _ => none

instance : Form ClusterSummary where
  toJson summary := Json.ofRecord [
    ("linking_id", toJson summary.cluster),
    ("average_score", toJson summary.averageScore),
    ("edge_count", toJson summary.edgeCount)]
  ofJson? json := do
    match ← json.record? ["linking_id", "average_score", "edge_count"] with
    | [cluster, averageScore, edgeCount] =>
        return ⟨← required? cluster, ← required? averageScore, ← required? edgeCount⟩
    | _ => none

instance : Form BlockSize where
  toJson block :=
    Json.ofRecord [("entity", toJson block.entity), ("block_size", toJson block.size)]
  ofJson? json := do
    match ← json.record? ["entity", "block_size"] with
    | [entity, size] => return ⟨← required? entity, ← required? size⟩
    | _ => none

instance : Form Edge where
  toJson edge := .array [toJson edge.cluster, toJson edge.link.src, toJson edge.link.dst]
  ofJson? json :=
    match json with
    | .array [cluster, src, dst] => do
        return ⟨← ofJson? cluster, ← ofJson? src, ← ofJson? dst⟩
    | _ => none

end RecordLinkage

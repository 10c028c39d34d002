import RecordLinkage.Match.Scores

/-! The match table: the rows of every cluster, and for each entity the number of rows that touch it in
each cluster. The counts tell which clusters an entity is in without a look at their rows, so no
count is zero and no entity is listed without a cluster. -/

namespace RecordLinkage

abbrev ClusterRows := Std.ExtTreeMap Link MatchRow

abbrev TouchCounts := Std.ExtTreeMap EntityKey (Std.ExtTreeMap Id Nat)

namespace TouchCounts

def add (counts : TouchCounts) (entity : EntityKey) (cluster : Id) : TouchCounts :=
  let own := counts.getD entity ∅
  counts.insert entity (own.insert cluster (own.getD cluster 0 + 1))

def subtract (counts : TouchCounts) (entity : EntityKey) (cluster : Id) : TouchCounts :=
  match counts[entity]? with
  | none => counts
  | some own =>
      let own := match own[cluster]? with
        | none => own
        | some count => if count ≤ 1 then own.erase cluster else own.insert cluster (count - 1)
      if own.isEmpty then counts.erase entity else counts.insert entity own

/-- A row from an entity to itself touches it once. -/
def addEdge (counts : TouchCounts) (edge : Edge) : TouchCounts :=
  let counts := counts.add edge.link.src edge.cluster
  if edge.link.dst = edge.link.src then counts else counts.add edge.link.dst edge.cluster

def subtractEdge (counts : TouchCounts) (edge : Edge) : TouchCounts :=
  let counts := counts.subtract edge.link.src edge.cluster
  if edge.link.dst = edge.link.src then counts else counts.subtract edge.link.dst edge.cluster

end TouchCounts

structure MatchTable where
  clusters : Std.ExtTreeMap Id ClusterRows
  counts : TouchCounts

namespace MatchTable

def empty : MatchTable := ⟨∅, ∅⟩

def rowsOf (table : MatchTable) (cluster : Id) : ClusterRows := table.clusters.getD cluster ∅

def find? (table : MatchTable) (edge : Edge) : Option MatchRow :=
  (table.rowsOf edge.cluster)[edge.link]?

def put (table : MatchTable) (edge : Edge) (row : MatchRow) : MatchTable :=
  let rows := table.rowsOf edge.cluster
  { clusters := table.clusters.insert edge.cluster (rows.insert edge.link row)
    counts := if rows.contains edge.link then table.counts else table.counts.addEdge edge }

def upsert (table : MatchTable) (edges : List ScoredEdge) (writtenAt : Instant) : MatchTable :=
  edges.foldl (fun table scored => table.put scored.edge ⟨scored.score, writtenAt⟩) table

def clustersOf (table : MatchTable) (entity : EntityKey) : List Id :=
  (table.counts.getD entity ∅).keys

def clustersContaining (table : MatchTable) (entities : EntitySet) : IdSet :=
  entities.toList.foldl (fun ids entity => ids.insertMany (table.clustersOf entity)) ∅

def scoresOf (rows : ClusterRows) : ScoreMap :=
  rows.toList.foldl (fun scores (link, row) => scores.add link.src link.dst row.score) ∅

def load (table : MatchTable) (ids : IdSet) : Std.ExtTreeMap Id ScoreMap :=
  ids.toList.foldl
    (fun loaded id =>
      match table.clusters[id]? with
      | some rows => loaded.insert id (scoresOf rows)
      | none => loaded)
    ∅

def planEdge (table : MatchTable) (link : Link) : List Edge :=
  ((table.clustersOf link.src).filter fun id => (table.rowsOf id).contains link).map (⟨·, link⟩)

def edgesTouching (table : MatchTable) (entity : EntityKey) : List Edge :=
  (table.clustersOf entity).flatMap fun id =>
    ((table.rowsOf id).keys.filter (·.touches entity)).map (⟨id, ·⟩)

def planTouching (table : MatchTable) (entity : EntityKey) (kept : PairSet) : List Edge :=
  (table.edgesTouching entity).filter fun edge => !kept.contains edge.link.pair

def planTouchingWhere (table : MatchTable) (chosen : EntityKey → Bool) : List Edge :=
  ((table.counts.keys.filter chosen).foldl
    (fun planned entity => planned.insertMany (table.edgesTouching entity)) (∅ : EdgeSet)).toList

def removeOne (table : MatchTable) (edge : Edge) : Bool × MatchTable :=
  match table.clusters[edge.cluster]? with
  | none => (false, table)
  | some rows =>
      if rows.contains edge.link then
        let rest := rows.erase edge.link
        (true,
          { clusters :=
              if rest.isEmpty then table.clusters.erase edge.cluster
              else table.clusters.insert edge.cluster rest
            counts := table.counts.subtractEdge edge })
      else (false, table)

def remove (table : MatchTable) : List Edge → Nat × MatchTable
  | [] => (0, table)
  | edge :: edges =>
      let (found, table) := table.removeOne edge
      let (count, table) := table.remove edges
      (if found then count + 1 else count, table)

def all (table : MatchTable) : List MatchedEdge :=
  table.clusters.toList.flatMap fun (id, rows) =>
    rows.toList.map fun (link, row) => ⟨⟨id, link⟩, row⟩

end MatchTable

end RecordLinkage

import RecordLinkage.Match

/-! Scores between entities: for every source its targets with their scores. -/

namespace RecordLinkage

abbrev ScoreMap := Std.ExtTreeMap EntityKey (Std.ExtTreeMap EntityKey Double)

namespace ScoreMap

def add (scores : ScoreMap) (src dst : EntityKey) (score : Double) : ScoreMap :=
  scores.insert src ((scores.getD src ∅).insert dst score)

def links (scores : ScoreMap) : List (Link × Double) :=
  scores.toList.flatMap fun (src, targets) =>
    targets.toList.map fun (dst, score) => (⟨src, dst⟩, score)

def edgeCount (scores : ScoreMap) : Nat := scores.links.length

def members (scores : ScoreMap) : EntitySet :=
  scores.toList.foldl
    (fun members (src, targets) => (members.insert src).insertMany targets.keys) ∅

def edges (scores : ScoreMap) (cluster : Id) : List ScoredEdge :=
  scores.links.map fun (link, score) => ⟨⟨cluster, link⟩, score⟩

def symmetric (focal : EntityKey) (matched : Std.ExtTreeMap EntityKey Double) : ScoreMap :=
  matched.toList.foldl
    (fun scores (entity, score) => (scores.add focal entity score).add entity focal score) ∅

end ScoreMap

end RecordLinkage

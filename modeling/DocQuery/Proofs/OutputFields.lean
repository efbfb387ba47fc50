import DocQuery.Proofs.AggregateTests
import DocQuery.Proofs.GroupedRows
import DocQuery.Proofs.OneTable
import DocQuery.Proofs.Verdicts

namespace DocQuery.Proofs

open Sql
open Value (doc)

section

variable {q : Query}

variable (hq : Named q)

include hq

end

/-- A statement on one table that groups rows has a pipeline if its clauses have filters. -/
theorem group_pipeline {q : Query} {t : String} {where? having? : Option Value}
    (hsource : q.source = .table t) (hgroups : groupsRows q = true)
    (hw : ClauseFilter (some (.text t)) q.condition? where?)
    (hh : ClauseFilter (some (.text t)) q.having? having?)
    (hwtext : ∀ s ∈ (where?.map Command.matchStage).toList, Succeeds s.literal)
    (hhtext : ∀ s ∈ (having?.map Command.matchStage).toList, Succeeds s.literal) :
    ∃ string, Command.translate q.toValue =
      .ok (pipelineDocument string (.text t) (groupStages q where? having?)) := by
  obtain ⟨string, hcommand⟩ := pipeline_command_shown t (group_stages_texts q hwtext hhtext)
  refine ⟨string, ?_⟩
  have htable : sourceTable q.source = .text t := by rw [hsource]; rfl
  rw [translate_of, clause_filter_asks hw, hsource, hgroups]
  change Command.groupCommand (some (.text t)) (partsOf q) = _
  rw [group_command_of hw hh, htable, hcommand]
  rfl

section

variable {schema : Value} {q : Query} {t : String} (hschema : Schema.check schema = .ok ())
  (hnamed : Named q) (haccepted : Accepted schema q) (hsource : q.source = .table t)

include hschema hnamed haccepted hsource

end

end DocQuery.Proofs

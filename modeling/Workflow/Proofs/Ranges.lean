import Workflow.Proofs.Shapes

/-!
Ranges of whole numbers. Seconds and counts are given as any value, and are checked in different
places: those of a graph when they are set, those of a retry when it is added, and those of a state
when its graph is compiled. Wherever they were checked, every document that is handed out shows
whole numbers that are not negative, and heartbeats that are shorter than their timeouts.
-/

namespace Workflow

namespace Json

/-- The fields of an entry that count something. -/
def counting : List String :=
  ["TimeoutSeconds", "HeartbeatSeconds", "Seconds", "MaxConcurrency"]

/-- Whether all fields that have one of some keys are whole numbers that are not negative. -/
def Counts (keys : List String) (value : Json) : Prop :=
  ∀ field ∈ value.fields, field.1 ∈ keys → ∃ n : Nat, field.2 = .nat n

/-- Whether the seconds and counts of an entry and of its retries are in range. -/
structure Ranged (entry : Json) : Prop where
  counts : entry.Counts counting
  beating : ∀ beat limit : Nat, ("HeartbeatSeconds", .nat beat) ∈ entry.fields →
    ("TimeoutSeconds", .nat limit) ∈ entry.fields → beat < limit
  retries : ∀ value, ("Retry", value) ∈ entry.fields → ∃ retries, value = .array retries ∧
    ∀ retry ∈ retries, retry.Counts ["IntervalSeconds", "MaxAttempts"]

/-- Whether the timeout of a document and its entries are in range, without regard to the documents
of the entries. -/
structure InRange (document : Json) : Prop where
  timeout : document.Counts ["TimeoutSeconds"]
  entries : ∀ entry ∈ document.entries, entry.2.Ranged

theorem mem_optional {key : String} {value : Json} {field : String × Json} :
    field ∈ optional key value ↔ value.isNull = false ∧ field = (key, value) := by
  unfold optional
  cases value.isNull <;> simp

theorem nat_of_nat? {value : Json} {n : Nat} (natural : value.nat? = some n) : value = .nat n := by
  unfold nat? at natural
  split at natural
  · split at natural
    · rename_i m positive
      obtain rfl := Option.some.inj natural
      rw [nat, int, Int.toNat_of_nonneg positive]
    · cases natural
  · cases natural

theorem OptionalNat.eq_nat {value : Json} (optional : value.OptionalNat)
    (given : value.isNull = false) : ∃ n : Nat, value = .nat n := by
  rcases optional with null | natural
  · rw [given] at null
    cases null
  · obtain ⟨n, natural⟩ := Option.isSome_iff_exists.mp natural
    exact ⟨n, nat_of_nat? natural⟩

theorem not_mem_of_lookup_none {fields : List (String × Json)} {field : String × Json}
    (absent : fields.lookup field.1 = none) : field ∉ fields := by
  intro member
  simpa using List.lookup_eq_none_iff.mp absent field member

end Json

namespace Retry

theorem counts_toJson (r : Retry) : r.toJson.Counts ["IntervalSeconds", "MaxAttempts"] := by
  intro field member key
  simp only [toJson, Json.fields, List.mem_cons, List.not_mem_nil, or_false] at member
  rcases member with rfl | rfl | rfl | rfl
  · simp at key
  · exact ⟨r.intervalSeconds, rfl⟩
  · exact ⟨r.maxAttempts, rfl⟩
  · simp at key

end Retry

namespace Entry

variable {e : Entry} {nested : List Json} {field : String × Json}

/-- What describes a state is in the fragment of its entry and nowhere else. -/
theorem mem_fragment (member : field ∈ (e.toJson nested).fields)
    (describing : field.1 ∈ Content.describing) : field ∈ e.content.fragment e.common := by
  rcases List.mem_append.mp member with fragment | references
  · exact fragment
  · have absent := e.lookup_references_none nested describing
    exact absurd references (Json.not_mem_of_lookup_none absent)

theorem mem_references (member : field ∈ (e.toJson nested).fields)
    (other : field.1 ∉ Content.describing) : field ∈ e.references nested := by
  rcases List.mem_append.mp member with fragment | references
  · exact absurd fragment
      (Json.not_mem_of_lookup_none (e.content.lookup_fragment_none e.common other))
  · exact references

theorem mem_content (member : field ∈ (e.toJson nested).fields)
    (counting : field.1 ∈ Json.counting) : field ∈ e.content.fields := by
  have describing : ∀ key ∈ Json.counting, key ∈ Content.describing := by decide
  have common : ∀ key ∈ Json.counting,
      key ≠ "Type" ∧ key ≠ "Comment" ∧ key ≠ "InputPath" ∧ key ≠ "OutputPath" := by decide
  obtain ⟨type, comment, input, output⟩ := common field.1 counting
  have fragment := mem_fragment member (describing field.1 counting)
  simp only [Content.fragment, List.mem_append, List.mem_cons, Json.mem_optional] at fragment
  rcases fragment with (((rfl | ⟨-, rfl⟩) | inside) | ⟨-, rfl⟩) | ⟨-, rfl⟩
  · exact absurd rfl type
  · exact absurd rfl comment
  · exact inside
  · exact absurd rfl input
  · exact absurd rfl output

/-- The retries of an entry are those that it has. -/
theorem retries_toJson {value : Json} (member : ("Retry", value) ∈ (e.toJson nested).fields) :
    value = .array (e.retries.map Retry.toJson) := by
  have other : "Retry" ∉ Content.describing := by decide
  have references := mem_references member other
  have onward (inside : ("Retry", value) ∈ e.onward) :
      value = .array (e.retries.map Retry.toJson) := by
    simp only [Entry.onward] at inside
    cases next : e.next <;> rw [next] at inside <;> split at inside <;> split at inside <;>
      simp at inside <;> exact inside
  unfold Entry.references at references
  cases content : e.content <;> rw [content] at references
  case choice =>
    cases next : e.next <;> rw [next] at references <;> simp at references
  case parallel => exact onward (by simpa using references)
  case map => exact onward (by simpa using references)
  case task | pass | wait => exact onward references
  case succeed | fail => cases references

end Entry

theorem Document.counts_toJson (document : Document) :
    document.toJson.Counts ["TimeoutSeconds"] := by
  obtain ⟨heading, es⟩ := document
  rintro ⟨key, value⟩ member counting
  obtain rfl := List.mem_singleton.mp counting
  rw [toJson_node] at member
  rcases List.mem_append.mp member with other | timeout
  · simp at other
  · obtain ⟨n, -, rfl⟩ : ∃ n, heading.timeout = some n ∧ Json.nat n = value := by
      simpa using timeout
    exact ⟨n, rfl⟩

namespace Workspace

variable {w : Workspace}

theorem counts_of_content {s : State} {content : Content} (complete : s.kind.Complete)
    (shown : w.content? s = some content) :
    (Json.object content.fields).Counts Json.counting := by
  intro field member counting
  change field ∈ content.fields at member
  unfold content? at shown
  cases kind : s.kind
  case plain | unbound => simp [kind] at shown
  all_goals
    simp only [kind, Option.some.injEq] at shown complete
    subst shown
  case choice | succeed => cases member
  all_goals
    simp only [Content.fields, WaitFields.given, List.cons_append, List.mem_append, List.mem_cons,
      Json.mem_optional] at member
    simp only [Json.counting, List.mem_cons, List.not_mem_nil, or_false] at counting
  case task =>
    obtain ⟨timeout, heartbeat, -⟩ := complete
    rcases member with rfl | ((⟨-, rfl⟩ | ⟨-, rfl⟩) | ⟨given, rfl⟩) | ⟨given, rfl⟩
    · simp at counting
    · simp at counting
    · simp at counting
    · exact timeout.eq_nat given
    · exact heartbeat.eq_nat given
  case wait =>
    rcases member with ((⟨given, rfl⟩ | ⟨-, rfl⟩) | ⟨-, rfl⟩) | ⟨-, rfl⟩
    · exact complete.2.eq_nat given
    all_goals simp at counting
  case map =>
    rcases member with ((⟨-, rfl⟩ | ⟨given, rfl⟩) | ⟨-, rfl⟩) | ⟨-, rfl⟩
    · simp at counting
    · exact complete.2.eq_nat given
    all_goals simp at counting
  case pass => rcases member with (⟨-, rfl⟩ | ⟨-, rfl⟩) | ⟨-, rfl⟩ <;> simp at counting
  case parallel | fail => rcases member with ⟨-, rfl⟩ | ⟨-, rfl⟩ <;> simp at counting

/-- Only tasks have heartbeats, which are shorter than their timeouts. -/
theorem beating_of_content {s : State} {content : Content} (complete : s.kind.Complete)
    (shown : w.content? s = some content) {beat limit : Nat}
    (heartbeat : ("HeartbeatSeconds", .nat beat) ∈ content.fields)
    (timeout : ("TimeoutSeconds", .nat limit) ∈ content.fields) : beat < limit := by
  unfold content? at shown
  cases kind : s.kind
  case plain | unbound => simp [kind] at shown
  all_goals
    simp only [kind, Option.some.injEq] at shown complete
    subst shown
    simp [Content.fields, WaitFields.given, Json.mem_optional] at heartbeat timeout
  obtain ⟨-, -, shorter⟩ := complete
  exact shorter beat limit (by rw [← heartbeat.2, Json.nat?_nat])
    (by rw [← timeout.2, Json.nat?_nat])

theorem ranged_of_entry {m : Member} {r : Entry} {nested : List Json}
    (complete : (w.state m.state).Complete) (ok : w.entry m = .ok r) :
    (r.toJson nested).Ranged := by
  obtain ⟨shown, -⟩ := entry_eq_ok ok
  constructor
  case counts =>
    intro field member counting
    exact counts_of_content complete.kind shown field (Entry.mem_content member counting) counting
  case beating =>
    intro beat limit heartbeat timeout
    exact beating_of_content complete.kind shown
      (Entry.mem_content heartbeat (by simp [Json.counting]))
      (Entry.mem_content timeout (by simp [Json.counting]))
  case retries =>
    intro value member
    refine ⟨_, Entry.retries_toJson member, ?_⟩
    intro retry listed
    obtain ⟨r, -, rfl⟩ := List.mem_map.mp listed
    exact r.counts_toJson

/-- The document of a level is in range, with all documents in it, if the states at all depths are
complete. -/
theorem inRange_of_complete {level : Level} {document : Document} (fits : document.Fits)
    (complete : ∀ m ∈ level.preorder, (w.state m.state).Complete)
    (ok : w.document level = .ok document) : ∀ d ∈ document.toJson.documents, d.InRange := by
  intro d member
  rw [Document.documents_toJson fits] at member
  obtain ⟨d, within, rfl⟩ := List.mem_map.mp member
  obtain ⟨l, within, ok⟩ := Outcome.exists_of_forall₂_right (document_levels ok) within
  obtain ⟨each, -⟩ := document_rendered ok
  constructor
  case timeout => exact d.counts_toJson
  case entries =>
    intro entry shown
    rw [Document.entries_toJson] at shown
    obtain ⟨r, listed, rfl⟩ := List.mem_map.mp shown
    obtain ⟨e, entry, rendered⟩ := Outcome.exists_of_forall₂_right each listed
    have inside : e.1 ∈ level.preorder :=
      (Nested.preorder_sublist_of_mem_levels within).subset
        ((Nested.entries_sublist_preorder l).subset (List.mem_map_of_mem entry))
    exact ranged_of_entry (complete e.1 inside) rendered.entry

end Workspace

namespace Runs

variable {w w' : Workspace} {ops : List Operation} {ref : GraphRef} {document : Document}

/-- The states of a level are complete whenever the level is asked for, as they were when it was
compiled. -/
theorem complete_of_level (runs : Runs {} ops w) (known : w.HasGraph ref.root) {level : Level}
    (ok : Build.level ref w = .ok level w') : ∀ m ∈ level.preorder, (w.state m.state).Complete := by
  intro m member
  obtain ⟨c, compiled, -, place⟩ := Build.level_ok ok
  obtain ⟨before, later, v, c', -, -, last, ok, same, -⟩ := runs.compiles known compiled
  obtain ⟨-, -, sound⟩ := Workspace.compile_ok ok none
  obtain ⟨other, within, same⟩ := Level.exists_untimed same (Build.mem_levels_of_level place)
  obtain ⟨l, inside, e, entry, rfl⟩ := Nested.exists_level_of_mem_preorder member
  obtain ⟨label, e', explored, state, -⟩ := Workspace.explored_of_untimed
    (fun l inside => sound l (Nested.mem_levels_trans inside within)) same inside entry
  rw [← state]
  exact last.complete (State.validate_eq_ok.mp explored.complete)

/-- Whenever a document is handed out, the seconds and counts in it and in all documents within it
are whole numbers that are not negative, whatever was given for them. -/
theorem documents_in_range (runs : Runs {} ops w) (known : w.HasGraph ref.root)
    (handed : Build.document ref w = .ok document w') :
    ∀ d ∈ document.toJson.documents, d.InRange := by
  obtain ⟨level, found, rendered⟩ := Build.level_of_document handed
  exact Workspace.inRange_of_complete (runs.document_fits known handed)
    (runs.complete_of_level known found) rendered

/-- An iterator calls a task with a heartbeat, and its graph gets a timeout after it was compiled. A
truth value is refused as a count of seconds, both times that it is given. -/
def metered : List Operation :=
  [.edit (.scope "T" none), .edit (.state ⟨0⟩ "Each" none {} (.map { maxConcurrency := .nat 2 })),
    .edit (.state ⟨0⟩ "Call" none {} (.task (.ok ⟨.string "arn:call", []⟩)
      { timeoutSeconds := .nat 60, heartbeatSeconds := .nat 5 })),
    .edit (.iterator ⟨0⟩ ⟨1⟩), .edit (.stop ⟨0⟩), .edit (.stop ⟨1⟩),
    .edit (.retry ⟨1⟩ { intervalSeconds := .bool true, backoffRate := .nat 1 }),
    .edit (.retry ⟨1⟩ { intervalSeconds := .nat 3, backoffRate := .nat 1 }),
    .inquiry (.graph (some ⟨0⟩) "" (.nat 0)), .inquiry (.level ⟨⟨0⟩, []⟩),
    .inquiry (.setTimeout ⟨⟨0⟩, [(⟨0⟩, 0)]⟩ (.nat 7)),
    .inquiry (.setTimeout ⟨⟨0⟩, [(⟨0⟩, 0)]⟩ (.bool true))]

theorem metered_in_range :
    ∃ w document w', Runs {} metered w ∧ w.HasGraph ⟨0⟩ ∧
      Build.document ⟨⟨0⟩, []⟩ w = .ok document w' ∧
      document.levels.map (·.info.timeout) = [some 0, some 7] ∧
      ∀ d ∈ document.toJson.documents, d.InRange := by
  have runs : Runs {} metered _ := .of_allows (by decide)
  obtain ⟨document, w', ok, timeouts⟩ : ∃ document w',
      Build.document ⟨⟨0⟩, []⟩ (Workspace.run {} metered) = .ok document w' ∧
        document.levels.map (·.info.timeout) = [some 0, some 7] := ⟨_, _, rfl, rfl⟩
  exact ⟨_, document, w', runs, by decide, ok, timeouts, documents_in_range runs (by decide) ok⟩

end Runs
end Workflow

import Clerk.Proofs.PuzzleFiles
import Clerk.Report

/-!
# Reports in writing

The JSON text of a report tells the whole report.  Values are written without a tag and the message
is left out when there is none, so this rests on the quotes around strings, on the escapes inside
them and on the keys of the members: the text is cut into the tokens of an object
(`Report.readsTo_json`), and no two reports have the same members (`Report.tokenMembers_inj`).
-/

set_option autoImplicit false

namespace Clerk

open Json PuzzleFile

theorem Status.text_inj {first second : Status} : first.text = second.text ↔ first = second := by
  cases first <;> cases second <;> decide

namespace Report

/-- The members of a report as tokens, in the order in which they are written. -/
def tokenMembers (report : Report) : List (String × List Token) :=
  [("status", [.string (report.status.text.toList.map pieceOf)])]
    ++ report.message.toList.map
      (fun message => ("message", [.string (message.toList.map pieceOf)]))
    ++ [("instruction_count", [.integer false report.instructionCount]),
        ("step_count", [.integer false report.stepCount]),
        ("input", valuesTokens report.input),
        ("output", valuesTokens report.output)]

/-! ## From the text to the members -/

theorem readsTo_indentedValues (values : List Value) :
    ReadsTo (indentedList (values.map Value.json)).toList (valuesTokens values) :=
  readsTo_indentedList (Value.forall₂_readsTo values)

theorem readsTo_json (report : Report) :
    ReadsTo report.json.toList (objectTokens report.tokenMembers) := by
  refine readsTo_indentedObject ?_
  unfold members tokenMembers
  refine List.rel_append (List.rel_append ?_ ?_) ?_
  · exact .cons ⟨rfl, readsTo_quoted _⟩ .nil
  · cases report.message with
    | none => exact .nil
    | some message => exact .cons ⟨rfl, readsTo_quoted _⟩ .nil
  · exact .cons ⟨rfl, readsTo_decimal _⟩ (.cons ⟨rfl, readsTo_decimal _⟩
      (.cons ⟨rfl, readsTo_indentedValues _⟩ (.cons ⟨rfl, readsTo_indentedValues _⟩ .nil)))

/-! ## From the members to the report -/

theorem keptFrom_tokenMembers (report : Report) :
    ∀ member ∈ report.tokenMembers, KeptFrom 0 member.2 := by
  intro member hmem
  simp only [tokenMembers, List.mem_append, List.mem_map, List.mem_cons, List.not_mem_nil,
    or_false] at hmem
  rcases hmem with (rfl | ⟨message, -, rfl⟩) | rfl | rfl | rfl | rfl
  · exact keptFrom_string _
  · exact keptFrom_string _
  · exact keptFrom_integer _ _
  · exact keptFrom_integer _ _
  · exact keptFrom_valuesTokens report.input
  · exact keptFrom_valuesTokens report.output

/-- **No two reports have the same members.** -/
theorem tokenMembers_inj {first second : Report} (h : first.tokenMembers = second.tokenMembers) :
    first = second := by
  obtain ⟨status, message, size, steps, input, output⟩ := first
  obtain ⟨status', message', size', steps', input', output'⟩ := second
  -- the second key tells whether there is a message
  cases message with
  | none =>
    cases message' with
    | none =>
      simpa [tokenMembers, map_pieceOf_inj, valuesTokens_inj, String.toList_inj, Status.text_inj]
        using h
    | some message' => simp [tokenMembers] at h
  | some message =>
    cases message' with
    | none => simp [tokenMembers] at h
    | some message' =>
      simpa [tokenMembers, map_pieceOf_inj, valuesTokens_inj, String.toList_inj, Status.text_inj]
        using h

/-- **Reports in JSON lose nothing**: two reports with the same text are the same report. -/
theorem json_inj (first second : Report) : first.json = second.json ↔ first = second := by
  refine ⟨fun h => tokenMembers_inj ?_, congrArg json⟩
  have htokens : objectTokens first.tokenMembers = objectTokens second.tokenMembers := by
    have hfirst := first.readsTo_json.tokens
    rw [h, second.readsTo_json.tokens] at hfirst
    exact (Option.some.inj hfirst).symm
  exact objectTokens_inj first.keptFrom_tokenMembers second.keptFrom_tokenMembers htokens

-- A message that looks like the end of a member does not end it.
example : json ⟨.fail, some "\",\n\\", 1, 0, [.character '1', .number Number.one], []⟩ =
    "\x7b\n  \"status\": \"fail\",\n  \"message\": \"\\\",\\n\\\\\",\n" ++
      "  \"instruction_count\": 1,\n  \"step_count\": 0,\n" ++
      "  \"input\": [\n    \"1\",\n    1\n  ],\n  \"output\": []\n\x7d" := by decide

end Report

end Clerk

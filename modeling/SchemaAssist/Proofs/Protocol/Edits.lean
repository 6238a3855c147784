import SchemaAssist.Protocol.Render
import SchemaAssist.Proofs.Protocol.Position

/-! # Edits and bytes

An editor that follows the positions of an edit changes the bytes that were meant: a quick fix goes
in where the fix itself would put it, and a suggestion replaces the text up to the cursor from
where it was said to.
-/
namespace SchemaAssist.Protocol
open Text

variable {text piece : String} {pre post : List Char} {offset : Nat}

theorem insertAt_eq (htext : text.toList = pre ++ post)
    (hlen : byteLength pre = floorBoundary text.toList offset) :
    insertAt text piece offset = String.ofList pre ++ piece ++ String.ofList post := by
  have hcut : splitAt? (floorBoundary text.toList offset) text.toList = some (pre, post) := by
    rw [← hlen, htext, splitAt?_byteLength]
  simp only [insertAt, hcut, String.ofList_append, String.ofList_toList]

theorem slice?_before (htext : text.toList = pre ++ post) :
    slice? text 0 (byteLength pre) = some (String.ofList pre) := by
  have hslice := slice?_eq (a := []) (b := pre) (c := post) htext
  rwa [byteLength_nil, Nat.zero_add] at hslice

theorem slice?_after (htext : text.toList = pre ++ post) :
    slice? text (byteLength pre) (size text) = some (String.ofList post) := by
  have hslice := slice?_eq (a := pre) (b := post) (c := []) (by rw [htext, List.append_nil])
  rwa [← byteLength_append, ← htext] at hslice

/-- Following the edit of a quick fix gives the fixed document, and the range of a suggestion leads
back to the offsets it was made from. -/
theorem edits_meet_bytes (text : String) (h : size text < UInt32.size) :
    (∀ (uri : String) (d : Lint.Diagnostic) (f : Lint.Fix), d.fix = some f →
      ∃ action p a before after, codeAction? uri text d = some action ∧
        action.edit.range = ⟨p, p⟩ ∧ offsetAt? text p = some a ∧
        slice? text 0 a = some before ∧ slice? text a (size text) = some after ∧
        before ++ action.edit.newText ++ after = f.apply text) ∧
    ∀ (it : Completion.Item) (snippetSupport : Bool) (replaceFrom cursor : Nat),
      IsBoundary text replaceFrom → IsBoundary text cursor →
      let range := (completionItem text it replaceFrom cursor snippetSupport).textEdit.range
      offsetAt? text range.start = some replaceFrom ∧ offsetAt? text range.stop = some cursor := by
  constructor
  · intro uri d f hf
    obtain ⟨pre, post, htext, hlen⟩ := exists_floorBoundary text.toList f.insertAt
    have haction : codeAction? uri text d = some
        { title := "Add '" ++ trim f.text ++ "'", diagnostic := diagnostic text d, uri := uri
          edit := ⟨⟨positionAt text f.insertAt, positionAt text f.insertAt⟩, f.text⟩ } := by
      rw [codeAction?, hf, Option.map_some]
    refine ⟨_, positionAt text f.insertAt, byteLength pre, String.ofList pre, String.ofList post,
      haction, rfl, ?_, slice?_before htext, slice?_after htext, ?_⟩
    · rw [offsetAt?_positionAt h, hlen]
    · rw [Lint.Fix.apply, insertAt_eq htext hlen]
  · intro it snippetSupport replaceFrom cursor hfrom hcursor
    constructor
    · exact (offsetAt?_positionAt h replaceFrom).trans (by rw [floorBoundary_of_isBoundary hfrom])
    · exact (offsetAt?_positionAt h cursor).trans (by rw [floorBoundary_of_isBoundary hcursor])

/-- An offset inside a character of two units, behind a line end. -/
theorem edits_meet_bytes_inside_character :
    let d : Lint.Diagnostic := .withFix (.error 0 1 "") ⟨5, "x"⟩
    size "a\n𝄞b" < UInt32.size ∧ d.fix = some ⟨5, "x"⟩ ∧ IsBoundary "a\n𝄞b" 2 ∧ IsBoundary "a\n𝄞b" 6 ∧
      (∃ action p a before after, codeAction? "u" "a\n𝄞b" d = some action ∧
        action.edit.range = ⟨p, p⟩ ∧ offsetAt? "a\n𝄞b" p = some a ∧
        slice? "a\n𝄞b" 0 a = some before ∧ slice? "a\n𝄞b" a (size "a\n𝄞b") = some after ∧
        before ++ action.edit.newText ++ after = Lint.Fix.apply ⟨5, "x"⟩ "a\n𝄞b") ∧
      let range := (completionItem "a\n𝄞b" (.keyword "b" 0) 2 6 false).textEdit.range
      offsetAt? "a\n𝄞b" range.start = some 2 ∧ offsetAt? "a\n𝄞b" range.stop = some 6 := by
  intro d
  have hsize : size "a\n𝄞b" < UInt32.size := by
    decide +kernel
  have hstart : IsBoundary "a\n𝄞b" 2 := ⟨['a', '\n'], ['𝄞', 'b'], by decide +kernel, by decide⟩
  have hstop : IsBoundary "a\n𝄞b" 6 := ⟨['a', '\n', '𝄞'], ['b'], by decide +kernel, by decide⟩
  exact ⟨hsize, rfl, hstart, hstop, (edits_meet_bytes _ hsize).1 "u" d _ rfl,
    (edits_meet_bytes _ hsize).2 (.keyword "b" 0) false 2 6 hstart hstop⟩

end SchemaAssist.Protocol

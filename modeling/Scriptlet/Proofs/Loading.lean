import Scriptlet.Program.Load
import Scriptlet.Proofs.Encoding
import Scriptlet.Proofs.Syntax.Recovery

/-! Programs loaded from files. It makes no difference whether a file is read before it is parsed or while
it is: the parser looks at all items of a source, whatever errors it meets, and so asks for every character
and for what comes behind the last one. -/
namespace Scriptlet

theorem Text.utf8_toList (text : String) :
    text.toUTF8.data.toList = text.toList.flatMap String.utf8EncodeChar := by
  have hutf8 : text.toUTF8 = text.toList.utf8Encode := by
    rw [← String.toByteArray_ofList, String.ofList_toList]
    rfl
  rw [hutf8, List.utf8Encode, List.toList_data_toByteArray]

theorem Text.decode_utf8 (text : String) : Text.decode text.toUTF8.data.toList = (text.toList, none) :=
  Text.decode_eq_iff.2 (Text.utf8_toList text)

/-- Bytes that are no text, and no others, are read up to a defect. -/
theorem Text.decode_defect_iff {bytes : List UInt8} :
    (∃ defect, (Text.decode bytes).2 = some defect) ↔ ¬bytes.toByteArray.IsValidUTF8 := by
  constructor
  · rintro ⟨defect, hdefect⟩ ⟨cs, hcs⟩
    have hbytes : bytes = cs.flatMap String.utf8EncodeChar := List.toByteArray_inj.1 hcs
    rw [Text.decode_eq_iff.2 hbytes] at hdefect
    cases hdefect
  · intro h
    cases hd : (Text.decode bytes).2 with
    | some defect => exact ⟨defect, rfl⟩
    | none =>
      have hdecode : Text.decode bytes = ((Text.decode bytes).1, none) := by rw [← hd]
      have hbytes := Text.decode_eq_iff.1 hdecode
      exact (h ⟨(Text.decode bytes).1, congrArg List.toByteArray hbytes⟩).elim

/-- What is asked of a reader of characters: a text comes as its characters, and of other bytes the longest text
at their front comes, and then an error. -/
structure ReadsUtf8 (characters : List UInt8 → Stream) : Prop where
  text : ∀ text : String, characters text.toUTF8.data.toList = text.toList.map .ok
  defect : ∀ bytes : List UInt8, ¬bytes.toByteArray.IsValidUTF8 → ∃ cs e more,
    Text.Longest bytes cs ∧ characters bytes = cs.map .ok ++ .error e :: more

theorem Text.characters_readsUtf8 : ReadsUtf8 Text.characters where
  text text := by
    rw [characters, decode_utf8]
    exact List.append_nil _
  defect bytes h := by
    obtain ⟨defect, hdefect⟩ := decode_defect_iff.2 h
    refine ⟨_, .ofDefect defect, [], decode_longest bytes, ?_⟩
    rw [characters, hdefect]
    rfl

namespace Stream

theorem chars_text (cs : List Char) : chars (cs.map .ok) = cs ∧ failure? (cs.map .ok) = none := by
  induction cs with
  | nil => exact ⟨rfl, rfl⟩
  | cons c cs ih => exact ⟨congrArg (c :: ·) ih.1, ih.2⟩

theorem failure?_append (cs : List Char) (e : FileError) (more : Stream) :
    failure? (cs.map .ok ++ .error e :: more) = some e := by
  induction cs with
  | nil => rfl
  | cons c cs ih => exact ih

end Stream

namespace Window

/-- Offsets are there for the characters that are not in view, and as long as the input has not ended two
characters are. -/
structure Asking (w : Window) : Prop where
  offsets : w.offsets.length = w.rest.length - 2
  filled : w.ended = false → 2 ≤ w.rest.length

theorem asking_start (input : List (UInt32 × Char)) : (start input).Asking := by
  match input with
  | [] => exact ⟨rfl, fun h => by cases h⟩
  | [_] => exact ⟨rfl, fun h => by cases h⟩
  | _ :: _ :: more => exact ⟨by simp [start], fun _ => by simp [start]⟩

theorem Asking.step {w : Window} (h : w.Asking) : w.step.Asking where
  offsets := by
    have hoffsets := h.offsets
    simp only [Window.step, List.length_tail]
    omega
  filled hopen := by
    have hoffsets := h.offsets
    simp only [Window.step, Bool.or_eq_false_iff, List.isEmpty_eq_false_iff] at hopen ⊢
    have hsome : 0 < w.offsets.length := List.length_pos_iff.2 hopen.2
    rw [List.length_tail]
    omega

theorem Asking.advance {w : Window} (h : w.Asking) (n : Nat) : (w.advance n).Asking := by
  induction n generalizing w with
  | zero => exact h
  | succ n ih => exact ih h.step

theorem Asking.next {w : Window} (h : w.Asking) : w.next.2.Asking := by
  have hskip : w.skipBlank.Asking := h.advance _
  unfold Window.next Window.read
  dsimp only
  split
  · exact hskip
  · exact hskip.advance _

theorem Asking.after {w : Window} (h : w.Asking) (n : Nat) : (w.after n).Asking := by
  induction n generalizing w with
  | zero => exact h
  | succ n ih => exact ih h.next

/-- Behind the last item nothing is left. -/
theorem after_trace (w : Window) : (w.after w.trace.length).rest = [] := by
  induction w using Window.trace.induct with
  | case1 w h =>
    have hnext : w.next.2 = w.skipBlank := by
      unfold Window.next Window.read
      rw [h]
    rw [Window.trace, dif_pos h]
    simp [Window.after, hnext, h]
  | case2 w h _ ih =>
    rw [Window.trace, dif_neg h]
    exact ih

/-- The input has told its end when the last item has been read. -/
theorem ended_after_trace (input : List (UInt32 × Char)) :
    ((start input).after (start input).trace.length).offsets = [] ∧
      ((start input).after (start input).trace.length).ended = true := by
  have hasking := (asking_start input).after (start input).trace.length
  have hrest := after_trace (start input)
  obtain ⟨hoffsets, hfilled⟩ := hasking
  rw [hrest] at hoffsets hfilled
  refine ⟨List.eq_nil_of_length_eq_zero hoffsets, ?_⟩
  rw [← Bool.not_eq_false]
  exact fun hopen => absurd (hfilled hopen) (by decide)

end Window

/-- The parser looks at all items of a source, with errors or without. -/
theorem Parsed.unread_ofSource (source : String) : (Parsed.ofSource source).unread = [] := by
  obtain ⟨ss, after, hleads, hend, hread⟩ := Grammar.statements_read source
  have hitems : after.items = [] := hleads.placed.items_of_end hend
  have hfor : (Grammar.for_ (.start (scan source))).statements Token.isEnd
      (Grammar.for_ (.start (scan source))).limit (.start (scan source)) = .ok ss after :=
    hread _ _ (Nat.le_refl _) (Nat.le_mul_of_pos_left _ Nat.two_pos)
  unfold Parsed.ofSource Parsed.ofItems
  dsimp only
  rw [hfor]
  exact hitems

/-- All of a stream has come when it is parsed, up to its end or its first error, and it is parsed as the text
that has come. -/
theorem Parsed.ofStream_eq (stream : Stream) : Parsed.ofStream stream =
    (Parsed.ofSource (String.ofList stream.chars), String.ofList stream.chars, stream.failure?) := by
  have hcounted : Text.counted 0 stream.chars = Text.indexed 0 stream.chars := Text.counted_eq_indexed 0 _
  have hitems : (Window.start (Text.indexed 0 stream.chars)).trace.map (·.1) =
      scan (String.ofList stream.chars) := by
    rw [scan, String.toList_ofList]
  have hlength : (scan (String.ofList stream.chars)).length =
      (Window.start (Text.indexed 0 stream.chars)).trace.length := by
    rw [← hitems, List.length_map]
  have hunread : (Parsed.ofItems (scan (String.ofList stream.chars))).unread = [] :=
    Parsed.unread_ofSource (String.ofList stream.chars)
  obtain ⟨hoffsets, hended⟩ := Window.ended_after_trace (Text.indexed 0 stream.chars)
  unfold Parsed.ofStream
  dsimp only
  rw [hcounted, hitems, hunread, List.length_nil, Nat.sub_zero, hlength, hoffsets, hended, List.length_nil,
    Nat.sub_zero, List.take_length]
  rfl

/-- However it is read, a file with a text in it is loaded like the text: with the same program, the same
places and the same warnings, or with the same errors in it. A file that holds no text cannot be read,
whatever errors are in the text before the first byte that is wrong. -/
theorem loaders_agree (characters : List UInt8 → Stream) (hcharacters : ReadsUtf8 characters) (optimize : Bool)
    (path : String) :
    (∀ text : String,
      loadFile optimize path (.ok text.toUTF8.data.toList) = loadSource optimize path text ∧
      loadCharacters characters optimize path (.ok text.toUTF8.data.toList) = loadSource optimize path text) ∧
    ∀ bytes : List UInt8, ¬bytes.toByteArray.IsValidUTF8 →
      loadFile optimize path (.ok bytes) = .error (.file .invalidText) ∧
      ∃ e, loadCharacters characters optimize path (.ok bytes) = .error (.file e) := by
  refine ⟨fun text => ⟨?_, ?_⟩, fun bytes hbytes => ⟨?_, ?_⟩⟩
  · have htext : Text.decode? text.toUTF8.data.toList = some text := by
      simp only [Text.decode?, Text.decode_utf8, String.ofList_toList]
    simp only [loadFile, htext]
  · obtain ⟨hchars, hfailure⟩ := Stream.chars_text text.toList
    simp only [loadCharacters, hcharacters.text, Parsed.ofStream_eq, hchars, hfailure, String.ofList_toList]
    rfl
  · obtain ⟨defect, hdefect⟩ := Text.decode_defect_iff.2 hbytes
    have hdecode : Text.decode bytes = ((Text.decode bytes).1, some defect) := by rw [← hdefect]
    rw [loadFile, Text.decode?, hdecode]
  · obtain ⟨cs, e, more, -, hstream⟩ := hcharacters.defect bytes hbytes
    refine ⟨e, ?_⟩
    rw [loadCharacters, Parsed.ofStream_eq, hstream, Stream.failure?_append]

/-- A bracket that is never closed, and a byte behind it that stands in no text. -/
theorem loaders_agree_on_defect :
    ReadsUtf8 Text.characters ∧ (parse "(").isOk = false ∧ ¬[40, 0xFF].toByteArray.IsValidUTF8 ∧
    loadFile true "a" (.ok [40, 0xFF]) = .error (.file .invalidText) ∧
    ∃ e, loadStream true "a" (.ok [40, 0xFF]) = .error (.file e) := by
  have hinvalid := Text.decode_defect_iff.1 ⟨.invalid, show (Text.decode [40, 0xFF]).2 = _ from rfl⟩
  obtain ⟨hfile, hstream⟩ := (loaders_agree _ Text.characters_readsUtf8 true "a").2 [40, 0xFF] hinvalid
  exact ⟨Text.characters_readsUtf8, by decide +kernel, hinvalid, hfile, hstream⟩

end Scriptlet

/-
  Thinking blocks of a streamed text, parsed as the text comes.

  The first place of each marker is looked for in what is new and in the last units before it, one
  less than the marker has. What is known then is what a search of the whole text would give
  (`Follows`), however the text is cut (`getResult_eq`).
-/
import WebGis.Data.Js
import WebGis.Data.Pieces

namespace WebGis.Events

open Data List

structure ThinkParseResult where
  thinking : JsString
  content : JsString

def thinkOpen : JsString := utf16 "<think>"

def thinkClose : JsString := utf16 "</think>"

/-- White space and line ends, as `trimStart` takes them. -/
def isJsSpace (u : UInt16) : Bool :=
  let n := u.toNat
  (9 ≤ n && n ≤ 13) || n = 0x20 || n = 0xa0 || n = 0x1680 || (0x2000 ≤ n && n ≤ 0x200a) ||
    n = 0x2028 || n = 0x2029 || n = 0x202f || n = 0x205f || n = 0x3000 || n = 0xfeff

def trimStart (s : JsString) : JsString := s.dropWhile isJsSpace

/-- The text without its thinking block, for the places of the two markers. -/
def resultOf (raw : JsString) (start stop : Option Nat) : ThinkParseResult :=
  match start, stop with
  | some start, some stop =>
      if start < stop then
        { thinking := (raw.take stop).drop (start + thinkOpen.length)
          content := raw.take start ++ trimStart (raw.drop (stop + thinkClose.length)) }
      else
        { thinking := raw.drop (start + thinkOpen.length), content := raw.take start }
  | some start, none =>
      { thinking := raw.drop (start + thinkOpen.length), content := raw.take start }
  | none, _ => { thinking := [], content := raw }

def parseThink (raw : JsString) : ThinkParseResult :=
  resultOf raw (indexOf thinkOpen raw) (indexOf thinkClose raw)

/-! ## The parser -/

/-- The first place of a marker, none for `-1`, and the units that may still begin it. -/
structure Tracked where
  position : Option Nat := none
  carry : JsString := []

/-- What `append` does for one marker. -/
def Tracked.look (marker : JsString) (base : Nat) (delta : JsString) (t : Tracked) : Tracked :=
  match t.position with
  | some _ => t
  | none =>
      let region := t.carry ++ delta
      match indexOf marker region with
      | some idx => { t with position := some (base - t.carry.length + idx) }
      | none => { t with carry := ending (marker.length - 1) region }

structure IncrementalThinkParser where
  chunks : List JsString := []
  totalLen : Nat := 0
  start : Tracked := {}
  stop : Tracked := {}

namespace IncrementalThinkParser

def append (p : IncrementalThinkParser) (delta : JsString) : IncrementalThinkParser :=
  { chunks := p.chunks ++ [delta]
    totalLen := p.totalLen + delta.length
    start := p.start.look thinkOpen p.totalLen delta
    stop := p.stop.look thinkClose p.totalLen delta }

def getResult (p : IncrementalThinkParser) : ThinkParseResult :=
  resultOf p.chunks.flatten p.start.position p.stop.position

end IncrementalThinkParser

/-! ## What is known is what a search would give -/

structure Follows (marker text : JsString) (t : Tracked) : Prop where
  position : t.position = indexOf marker text
  carry : t.position = none → t.carry = ending (marker.length - 1) text

theorem Follows.look {marker text : JsString} {t : Tracked} {m : Nat}
    (hmarker : marker.length = m + 1) (h : Follows marker text t) (delta : JsString) :
    Follows marker (text ++ delta) (t.look marker text.length delta) := by
  cases hpos : t.position with
  | some i =>
      have hfound := indexOf_append_of_some (d := delta) (ne_nil_of_length_eq_add_one hmarker)
        (h.position ▸ hpos)
      have hlook : t.look marker text.length delta = t := by simp only [Tracked.look, hpos]
      rw [hlook]
      exact ⟨hpos.trans hfound.symm, fun hnone => by cases hpos.symm.trans hnone⟩
  | none =>
      have hcarry : t.carry = ending m text := by rw [h.carry hpos, hmarker, Nat.add_sub_cancel]
      have hsearch := indexOf_append (d := delta) hmarker (h.position ▸ hpos)
      have hbase : text.length - t.carry.length = text.length - m := by
        rw [hcarry, ending, length_drop]
        omega
      rw [← hcarry] at hsearch
      cases hidx : indexOf marker (t.carry ++ delta) with
      | some i =>
          have hlook : t.look marker text.length delta =
              { t with position := some (text.length - t.carry.length + i) } := by
            simp only [Tracked.look, hpos, hidx]
          rw [hlook]
          refine ⟨?_, fun hnone => by cases hnone⟩
          rw [hsearch, hidx, hbase, Option.map_some]
      | none =>
          have hlook : t.look marker text.length delta =
              { t with carry := ending m (t.carry ++ delta) } := by
            simp only [Tracked.look, hpos, hidx, hmarker, Nat.add_sub_cancel]
          rw [hlook]
          refine ⟨?_, fun _ => ?_⟩
          · rw [hsearch, hidx]
            exact hpos
          · rw [hmarker, Nat.add_sub_cancel, hcarry]
            exact ending_append m text delta

structure Sound (text : JsString) (p : IncrementalThinkParser) : Prop where
  chunks : p.chunks.flatten = text
  totalLen : p.totalLen = text.length
  start : Follows thinkOpen text p.start
  stop : Follows thinkClose text p.stop

theorem Sound.append {text : JsString} {p : IncrementalThinkParser} (h : Sound text p)
    (delta : JsString) : Sound (text ++ delta) (p.append delta) where
  chunks := by rw [IncrementalThinkParser.append, flatten_append, h.chunks, flatten_singleton]
  totalLen := by rw [IncrementalThinkParser.append, h.totalLen, length_append]
  start := by
    rw [IncrementalThinkParser.append, h.totalLen]
    exact h.start.look rfl delta
  stop := by
    rw [IncrementalThinkParser.append, h.totalLen]
    exact h.stop.look rfl delta

theorem sound_foldl (deltas : List JsString) :
    Sound deltas.flatten (deltas.foldl IncrementalThinkParser.append {}) := by
  induction deltas using List.reverseRecOn with
  | nil => exact ⟨rfl, rfl, ⟨rfl, fun _ => rfl⟩, ⟨rfl, fun _ => rfl⟩⟩
  | append_singleton deltas delta ih =>
      rw [foldl_append, flatten_append, flatten_singleton]
      exact ih.append delta

/-- After any number of deltas the result is that of the text so far. -/
theorem getResult_eq (deltas : List JsString) (n : Nat) :
    ((deltas.take n).foldl IncrementalThinkParser.append {}).getResult =
      parseThink (deltas.take n).flatten := by
  have h := sound_foldl (deltas.take n)
  rw [IncrementalThinkParser.getResult, parseThink, h.chunks, h.start.position, h.stop.position]

end WebGis.Events

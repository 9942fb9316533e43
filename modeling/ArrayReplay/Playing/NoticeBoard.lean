import ArrayReplay.Playing.Timer
import ArrayReplay.Replay.Diagnostic

/-!
The notice board. Diagnostics are posted as notices that stay for a while. A diagnostic with the
severity, line and message of one posted a short while ago is left out, and when the board is full
the oldest notices make room.
-/
namespace ArrayReplay

structure Notice where
  severity : Severity
  line : Nat
  message : String
  raisedAt : Time
deriving DecidableEq

structure NoticeBoard where
  /-- A diagnostic is not posted again within this span. -/
  window : Time
  /-- A notice stays for this span. -/
  lifetime : Time
  /-- The diagnostics posted lately, as they are worded, and when each was last posted. -/
  posted : List (String × Time) := []
  /-- The notices on display, oldest first. -/
  active : List Notice := []
deriving DecidableEq

namespace NoticeBoard

def capacity : Nat := 5

def isRecent (now : Time) (text : String) (b : NoticeBoard) : Bool :=
  match b.posted.find? (fun e => e.1 == text) with
  | some (_, time) => now - time < b.window
  | none => false

def add (now : Time) (d : Diagnostic) (b : NoticeBoard) : NoticeBoard :=
  { b with
    posted := (d.text, now) :: b.posted.filter (fun e => e.1 != d.text)
    active := b.active ++ [⟨d.severity, d.location.line, d.message, now⟩] }

def post (now : Time) : List Diagnostic → NoticeBoard → Nat × NoticeBoard
  | [], b => (0, b)
  | d :: more, b =>
    if b.isRecent now d.text then post now more b
    else
      let (added, rest) := post now more (b.add now d)
      (added + 1, rest)

def trim (b : NoticeBoard) : NoticeBoard :=
  { b with active := b.active.drop (b.active.length - capacity) }

def publish (now : Time) (diagnostics : List Diagnostic) (b : NoticeBoard) : Nat × NoticeBoard :=
  let (added, rest) := post now diagnostics b
  (added, rest.trim)

def expire (now : Time) (b : NoticeBoard) : NoticeBoard :=
  { b with
    posted := b.posted.filter (fun e => now - e.2 < b.window)
    active := b.active.filter (fun n => now - n.raisedAt < b.lifetime) }

def clear (b : NoticeBoard) : NoticeBoard := { b with posted := [], active := [] }

end NoticeBoard
end ArrayReplay

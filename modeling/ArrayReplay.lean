import ArrayReplay.Main
import ArrayReplay.Proofs.Editing.Edits
import ArrayReplay.Proofs.Playing.Changes
import ArrayReplay.Proofs.Playing.Stillness
import ArrayReplay.Proofs.Replay.Outcomes
import ArrayReplay.Proofs.Replay.Separation
import ArrayReplay.Proofs.Session.Adjusting
import ArrayReplay.Proofs.Session.Markers
import ArrayReplay.Proofs.Session.Selection
import ArrayReplay.Proofs.Playing.Coalescing
import ArrayReplay.Proofs.Playing.Notices
import ArrayReplay.Proofs.Notation.Terminators
import ArrayReplay.Proofs.Notation.Assignments
import ArrayReplay.Proofs.Editing.Restoring
import ArrayReplay.Proofs.Playing.Accounts
import ArrayReplay.Proofs.Editing.Numbering
import ArrayReplay.Proofs.Replay.Catalogue
import ArrayReplay.Proofs.CommandLine.Redeclaring
import ArrayReplay.Proofs.Playing.Cycling
import ArrayReplay.Proofs.View.Highlighting
import ArrayReplay.Proofs.View.Scrolling
import ArrayReplay.Proofs.View.CursorPlace
import ArrayReplay.Proofs.Notation.Calls
import ArrayReplay.Proofs.Notation.Integers
import ArrayReplay.Proofs.Session.Orders

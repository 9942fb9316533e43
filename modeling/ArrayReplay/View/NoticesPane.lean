import ArrayReplay.Playing.NoticeBoard
import ArrayReplay.Terminal.Picture
import ArrayReplay.View.Theme

namespace ArrayReplay.View.NoticesPane

open Terminal

def entry (n : Notice) : Line :=
  let color := Theme.ofSeverity n.severity
  [⟨' ' :: n.severity.word.toList ++ [' '], Theme.badge color⟩,
    ⟨" line ".toList ++ Numeral.ofNat n.line ++ [':', ' '], .ofColor Theme.comment⟩,
    ⟨n.message.toList, .ofColor color⟩]

def picture (notices : List Notice) (width height : Nat) : Picture :=
  box " Notifications ".toList (.ofColor Theme.border) width height fun w h =>
    if notices.isEmpty then
      let style := Style.ofColor Theme.comment
      .ofRows w h style [Line.cells style [⟨"(no diagnostics)".toList, .plain⟩]]
    else
      let shown := notices.drop (notices.length - max 1 (height - 2))
      .ofRows w h .plain (shown.map fun n => Cell.blank .plain :: Line.cells .plain (entry n))

end ArrayReplay.View.NoticesPane

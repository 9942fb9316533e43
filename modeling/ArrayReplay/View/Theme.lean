import ArrayReplay.Replay.Diagnostic
import ArrayReplay.Terminal.Cell

namespace ArrayReplay.View.Theme

open Terminal

def text : Color := .rgb 0xcd 0xd6 0xf4
def primary : Color := .rgb 0x89 0xb4 0xfa
def secondary : Color := .rgb 0xfa 0xb3 0x87
def comment : Color := .rgb 0x6c 0x70 0x86
def success : Color := .rgb 0xa6 0xe3 0xa1
def warning : Color := .rgb 0xf9 0xe2 0xaf
def error : Color := .rgb 0xf3 0x8b 0xa8
def string : Color := .rgb 0xfa 0xb3 0x87
def number : Color := .rgb 0xfa 0xb3 0x87
def focusedBorder : Color := .rgb 0xf9 0xe2 0xaf
def border : Color := .rgb 0x6c 0x70 0x86
def strip : Color := .rgb 0x32 0x32 0x46
def method : Color := .rgb 0xf9 0xe2 0xaf
def typeName : Color := .rgb 0x94 0xe2 0xd5
def bar : Color := .rgb 0xcb 0xa6 0xf7
def selectedBar : Color := .rgb 0xf5 0xc2 0xe7

def borderStyle (focused : Bool) : Style :=
  if focused then (Style.ofColor focusedBorder).inBold else .ofColor border

def ofSeverity : Severity → Color
  | .hint => primary
  | .warning => warning
  | .error => error

def badge (color : Color) : Style := (Style.ofColors .black color).inBold

end ArrayReplay.View.Theme

import ByteborneWorld.ClientModel

/-!
The input of the chat window: its two text fields and its buttons, as the main thread draws them
once in a frame, and the client that is used through them.

What the user does in a frame is a parameter. A frame in which the window is not drawn does
nothing here.
-/

namespace ByteborneWorld.InputModel

open ByteborneWorld.ChatProto ByteborneWorld.ChatWindowModel ByteborneWorld.GameClientModel
open ByteborneWorld.PacketModel ByteborneWorld.SendModel ByteborneWorld.ClientModel

/-- The content of a `char` array with a terminator in it. -/
structure Buffer (size : ℕ) where
  text : Str
  lt_size : text.length < size
  terminated : 0 ∉ text

/-- `strncpy_s` with one less than the size, of a string that ends at its first zero. -/
def Buffer.copy (size : ℕ) (hsize : 0 < size) (s : Str) : Buffer size where
  text := (s.takeWhile (· ≠ 0)).take (size - 1)
  lt_size := by
    have hle := List.length_take_le (size - 1) (s.takeWhile (· ≠ 0))
    omega
  terminated h := by simpa using List.mem_takeWhile_imp (List.mem_of_mem_take h)

/-- What the user does while a frame is drawn. An edited text field leaves its text in the buffer
it was given. -/
structure Frame where
  username : Option (Buffer 256)
  clearChat : Bool
  koreanTest : Bool
  chatInput : Option (Buffer 1024)
  enterPressed : Bool
  sendButton : Bool
  /-- what the clock says at the next message of the window -/
  clock : ℕ → Clock

/-! ### The chat window -/

section Window

variable (w : ChatWindow)

def addTestMessages (clock : ℕ → Clock) : ChatWindow :=
  let add (w : ChatWindow) (message : String) (k : ℕ) :=
    w.addChatMessage (utf8 "테스트") (utf8 message) (clock k)
  let w := add w "안녕하세요! 한글이 잘 보이나요? 🇰🇷" 0
  let w := add w "가나다라마바사아자차카타파하" 1
  let w := add w "ㄱㄴㄷㄹㅁㅂㅅㅇㅈㅊㅋㅌㅍㅎ" 2
  add w "ㅏㅑㅓㅕㅗㅛㅜㅠㅡㅣ" 3

def renderToolbar (f : Frame) : ChatWindow :=
  let w := match f.username with
    | some usernameBuffer => { w with usernameText := usernameBuffer.text }
    | none => w
  let w := if f.clearChat then w.clear else w
  if f.koreanTest then addTestMessages w f.clock else w

/-- The text of the input field, which is taken over in every frame. -/
def renderInput (f : Frame) : ChatWindow :=
  let inputBuffer := f.chatInput.getD (.copy 1024 (by decide) w.chatInputText)
  { w with chatInputText := inputBuffer.text }

end Window

/-! ### The client -/

section Client

variable (build : Build) (pb : Protobuf) (formatTimestampFromMs : Int64 → Str) (c : Client)

/-- `ChatWindow::sendChatMessage`, whose callback is the client's own. -/
def submit (clock : Clock) : Option Client :=
  let (w, message) := c.game.chatWindow.sendChatMessage clock
  let c := { c with game.chatWindow := w }
  match message with
  | some message => c.handle build pb formatTimestampFromMs (.sendChatMessage message clock)
  | none => some c

/-- The chat window after the fields of a frame. -/
def filled (f : Frame) : Client :=
  { c with game.chatWindow := renderInput (renderToolbar c.game.chatWindow f) f }

def render (f : Frame) : Option Client :=
  let c := filled c f
  if f.enterPressed ∨ f.sendButton then submit build pb formatTimestampFromMs c (f.clock 4)
  else some c

end Client

inductive Act
  | frame (f : Frame)
  /-- anything else; nobody but the chat window sends chat -/
  | client (a : ClientModel.Act)

def step (build : Build) (pb : Protobuf) (formatTimestampFromMs : Int64 → Str) (c : Client) :
    Act → Option Client
  | .frame f => if c.pc = .outside then render build pb formatTimestampFromMs c f else none
  | .client (.sendChatMessage _ _) => none
  | .client a => ClientModel.step build pb formatTimestampFromMs c a

end ByteborneWorld.InputModel

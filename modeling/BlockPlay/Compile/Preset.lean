import BlockPlay.Compile.Config

/-!
The configurations of the games that come with the library.
-/
namespace BlockPlay.Preset

def common (game : String) : Config :=
  Config.empty
    |>.register .start ["when_run", "event_start", game ++ "_start"]
    |>.register .move ["move_forward", game ++ "_move_forward"]
    |>.register .back ["move_backward", game ++ "_move_backward"]
    |>.register .turnLeft ["turn_left", game ++ "_turn_left"]
    |>.register .turnRight ["turn_right", game ++ "_turn_right"]
    |>.register .loop ["controls_repeat", "controls_repeat_ext", "repeat_times"]
    |>.register .wait ["wait", "wait_ms", "wait_seconds"]

def maze : Config := common "maze"

def artist : Config :=
  common "artist"
    |>.register .penUp ["pen_up", "artist_pen_up"]
    |>.register .penDown ["pen_down", "artist_pen_down"]
    |>.register .color ["set_color", "artist_color"]
    |>.register .width ["set_width", "artist_width"]

def farm : Config :=
  common "farm"
    |>.register .collect ["collect", "farm_collect"]
    |>.register .plant ["plant", "farm_plant"]
    |>.register .water ["water", "farm_water"]
    |>.register .harvest ["harvest", "farm_harvest"]

def all : List (String × Config) := [("artist", artist), ("farm", farm), ("maze", maze)]

def names : List String := all.map Prod.fst

def find? (name : String) : Option Config := all.lookup name

end BlockPlay.Preset

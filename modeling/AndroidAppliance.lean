import AndroidAppliance.Supervisor.Lifecycle
import AndroidAppliance.Supervisor.Moves
import AndroidAppliance.Supervisor.Tasks
import AndroidAppliance.Supervisor.Stages
import AndroidAppliance.Supervisor.Running
import AndroidAppliance.Supervisor.Requests
import AndroidAppliance.Supervisor.Transitions
import AndroidAppliance.Supervisor.Devices
import AndroidAppliance.Supervisor.Watchers
import AndroidAppliance.Supervisor.Resources
import AndroidAppliance.Supervisor.History
import AndroidAppliance.Supervisor.Ownership
import AndroidAppliance.Supervisor.Launches
import AndroidAppliance.Supervisor.Stopped
import AndroidAppliance.Transition.Fairness
import AndroidAppliance.Supervisor.Exits
import AndroidAppliance.Avd.Basic
import AndroidAppliance.Avd.Deletion
import AndroidAppliance.Session.Desk
import AndroidAppliance.Session.NeverStarts
import AndroidAppliance.Access.Basic
import AndroidAppliance.Access.Revocation
import AndroidAppliance.Access.Rotation
import AndroidAppliance.Turn.Agreement
import AndroidAppliance.Supervisor.Leases
import AndroidAppliance.Supervisor.Continuations
import AndroidAppliance.Webrtc.Basic
import AndroidAppliance.Webrtc.Limits
import AndroidAppliance.Webrtc.Leaks
import AndroidAppliance.Session.Viewer
import AndroidAppliance.Session.Grammar
import AndroidAppliance.Access.Sockets
import AndroidAppliance.Input.Basic
import AndroidAppliance.Input.Touches
import AndroidAppliance.Input.LetGo
import AndroidAppliance.Dashboard.Link
import AndroidAppliance.Dashboard.Handlers
import AndroidAppliance.Dashboard.NoDeadEnd
import AndroidAppliance.Dashboard.Events
import AndroidAppliance.Dashboard.Fresh
import AndroidAppliance.Dashboard.Wire
import AndroidAppliance.Dashboard.Order
import AndroidAppliance.Dashboard.Attribution
import AndroidAppliance.Gesture.Pointers
import AndroidAppliance.Gesture.Screen
import AndroidAppliance.Gesture.Table
import AndroidAppliance.Gesture.Fingers
import AndroidAppliance.Gesture.Erasure
import AndroidAppliance.Keyboard.Keys
import AndroidAppliance.Keyboard.Lane
import AndroidAppliance.Keyboard.Guest
import AndroidAppliance.Text.Utf16
import AndroidAppliance.Keyboard.Chunks
import AndroidAppliance.Keyboard.Accepted
import AndroidAppliance.Mcp.WaitBoot
import AndroidAppliance.Mcp.Restart
import AndroidAppliance.Transition.Window
import AndroidAppliance.Access.Attempts
import AndroidAppliance.Access.Limits
import AndroidAppliance.Files.Transfer
import AndroidAppliance.Files.Gone
import AndroidAppliance.Status.Basic
import AndroidAppliance.Status.Current
import AndroidAppliance.Clipboard.Basic
import AndroidAppliance.Clipboard.Restored
import AndroidAppliance.Gesture.Wheel
import AndroidAppliance.Text.Lines
import AndroidAppliance.Install.Images
import AndroidAppliance.Avd.Framed
import AndroidAppliance.Access.Cookie
import AndroidAppliance.Device.Listing
import AndroidAppliance.Shell.Words
import AndroidAppliance.Shell.Expansion
import AndroidAppliance.Shell.Script
import AndroidAppliance.Device.Commands
import AndroidAppliance.Regex.Search
import AndroidAppliance.Ctl.JsonField
import AndroidAppliance.Config.Readers
import AndroidAppliance.Json.Loads
import AndroidAppliance.Request.Validators
import AndroidAppliance.Session.Bucket
import AndroidAppliance.Dashboard.Freeze
import AndroidAppliance.Gesture.Swipe
import AndroidAppliance.Gesture.Geometry
import AndroidAppliance.Gesture.Scroll
import AndroidAppliance.Input.Shared
import AndroidAppliance.Webrtc.Answer
import AndroidAppliance.Emulator.Discovery
import AndroidAppliance.Emulator.Log
import AndroidAppliance.Emulator.Watch
import AndroidAppliance.Gesture.Display
import AndroidAppliance.Gesture.Frames
import AndroidAppliance.Dashboard.Poster
import AndroidAppliance.Emulator.Rotation
import AndroidAppliance.Turn.Limits
import AndroidAppliance.Ctl.Copies
import AndroidAppliance.Ctl.Meant
import AndroidAppliance.Dashboard.Peer
import AndroidAppliance.Ctl.Shell
import AndroidAppliance.Mcp.Files
import AndroidAppliance.Install.Settings
import AndroidAppliance.Install.Unit
import AndroidAppliance.Install.PrintRun

import IrHub.Theory.Machine
import IrHub.Theory.Bytes
import IrHub.Theory.CLibrary
import IrHub.Firmware.Config
import IrHub.Firmware.JsonHelper
import IrHub.Firmware.Inbound
import IrHub.Firmware.Publish
import IrHub.Backend.Store
import IrHub.Backend.Server
import IrHub.System.LearnSend
import IrHub.Firmware.NetConfig
import IrHub.Firmware.NetConfigFlash
import IrHub.Backend.Rules
import IrHub.Firmware.Capture
import IrHub.Frontend.App
import IrHub.System.Edits
import IrHub.Firmware.BleProvision
import IrHub.Firmware.NetworkTask
import IrHub.Firmware.Commands
import IrHub.Firmware.Order
import IrHub.Firmware.Progress
import IrHub.Firmware.Trial
import IrHub.Backend.Learn
import IrHub.Firmware.Segmentation
import IrHub.Firmware.Spikes
import IrHub.Firmware.Secrecy
import IrHub.Firmware.Radio
import IrHub.Firmware.Sources
import IrHub.Theory.Utf16
import IrHub.Firmware.Validation
import IrHub.Frontend.Setup
import IrHub.System.Provision
import IrHub.Firmware.PulseArray
import IrHub.Firmware.Members
import IrHub.Firmware.BrokerAddress
import IrHub.Firmware.Burst
import IrHub.Firmware.LongWrite
import IrHub.Backend.Records
import IrHub.Backend.Routines
import IrHub.Backend.Delays
import IrHub.Backend.Payloads
import IrHub.Backend.Api
import IrHub.Backend.SendPaths
import IrHub.Firmware.Notifications
import IrHub.Firmware.CaptureQueue
import IrHub.Firmware.BackToBack
import IrHub.Backend.RulePass
import IrHub.Theory.Access
import IrHub.Firmware.ParseIpv4
import IrHub.Theory.CMemory
import IrHub.Firmware.Encoder
import IrHub.Firmware.Decoder
import IrHub.Firmware.RxBuffers
import IrHub.Theory.Pacing
import IrHub.Theory.Single
import IrHub.Theory.Double
import IrHub.Theory.Numeral
import IrHub.Firmware.Transmit
import IrHub.System.Provenance
import IrHub.System.Replay
import IrHub.Firmware.Recovery
import IrHub.Theory.JsonText
import IrHub.Backend.Persist
import IrHub.Backend.Automation
import IrHub.Firmware.Takeover
import IrHub.System.Commission
import IrHub.System.StatusPage
import IrHub.System.Unedited

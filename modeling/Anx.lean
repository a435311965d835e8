import Anx.Lib.Machine
import Anx.Lib.Effect
import Anx.Lib.RepSocket
import Anx.Lib.Varint
import Anx.Lib.Wire
import Anx.Lib.Registers
import Anx.Lib.WsFrame
import Anx.App.WebSocket
import Anx.Comms.Messages
import Anx.Lib.Lines
import Anx.Comms.Framing
import Anx.Comms.DeviceRpcHandler
import Anx.Tflite.TfliteRunner
import Anx.Tflite.RpcServer
import Anx.Tflite.OneReply
import Anx.Tflite.Session
import Anx.Tflite.Remote
import Anx.Comms.RequestFraming
import Anx.Conf.ParamUtils
import Anx.Conf.ParamsRead
import Anx.Conf.Variables
import Anx.Conf.ConfFile
import Anx.Conf.ReadersAgree
import Anx.Conf.Store
import Anx.Conf.PropertiesStore
import Anx.Conf.PrefStore
import Anx.Conf.Profiles
import Anx.Conf.ProfileRead
import Anx.Conf.Mounts
import Anx.Sensor.Imu
import Anx.Sensor.ImuStream
import Anx.Sensor.DeviceImu
import Anx.Sensor.StartUp
import Anx.Sensor.Rate
import Anx.Sensor.DeviceGnss
import Anx.Daemon.EndlessService
import Anx.Lib.Glob
import Anx.Cli.ComponentDepends
import Anx.Cli.Resolution
import Anx.Cli.ComponentExec
import Anx.Cli.Needed
import Anx.Cli.Order
import Anx.Lib.Words
import Anx.Lib.Bre
import Anx.Cli.ContainerUmount
import Anx.Cli.OnlyContainer
import Anx.Lib.Code
import Anx.Env.Files
import Anx.Env.Extract
import Anx.Env.Update
import Anx.Lib.Owner
import Anx.Comms.Endpoints
import Anx.Lib.Parts
import Anx.App.Logger
import Anx.Conf.Eval
import Anx.Conf.ConfigCommand
import Anx.Conf.Settings
import Anx.Conf.ConfigSpec
import Anx.Conf.ConfigRuns
import Anx.Conf.ConfigUpdate
import Anx.Conf.SettingsKept
import Anx.App.ProfilesActivity
import Anx.Tflite.InBounds
import Anx.Tflite.FailedLoad
import Anx.Conf.ReadConfTotal
import Anx.Lib.Calls
import Anx.Device.WiFiManager
import Anx.Lib.Pace
import Anx.Sensor.ImuRate
import Anx.Sensor.RateRuns
import Anx.Conf.ParamsParse
import Anx.Cli.Actions
import Anx.Cli.UmountOrder
import Anx.Lib.Ensure
import Anx.Cli.ContainerMount
import Anx.Cli.MountTwice
import Anx.Cli.MountFailure
import Anx.Lib.Sed
import Anx.Lib.Upsert
import Anx.Cli.AndroidGroups
import Anx.Cli.Aid
import Anx.Cli.PrivilegedUsers
import Anx.Cli.ServiceStatus
import Anx.App.LogRetention
import Anx.Lib.SymLinks
import Anx.Env.CleanDirectory
import Anx.App.RepositoryActivity
import Anx.Lib.SubSocket
import Anx.Comms.Subscriber
import Anx.Sensor.RateWrap
import Anx.Cli.IsMounted
import Anx.Conf.Shell
import Anx.Env.Platform
import Anx.Lib.Tables
import Anx.Cli.Jobs
import Anx.Cli.JobChanges
import Anx.Cli.JobRuns
import Anx.Lib.Rules
import Anx.Lib.LineFile
import Anx.Cli.Configure
import Anx.Cli.ConfigureRules
import Anx.Cli.ConfigureRuns
import Anx.Bootstrap.Packages
import Anx.Lib.Frontier
